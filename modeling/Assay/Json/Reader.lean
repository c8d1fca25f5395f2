import Assay.Decimal.Reading
import Assay.Json.Basic

/-!
# Reading JSON

A reader that stops at the first character that cannot continue a document and tells its line and
column.
-/

namespace Assay.Json

/-- What is wrong, and how much of the text was left when that was found. -/
abbrev Refusal := String × Nat

def skipBlanks (cs : List Char) : List Char :=
  cs.dropWhile fun c => c = ' ' ∨ c = '\t' ∨ c = '\n' ∨ c = '\r'

def refuse {α : Type} (what : String) (rest : List Char) : Except Refusal α :=
  .error (what, rest.length)

def hexValue? (c : Char) : Option Nat :=
  if c.isDigit then some (c.toNat - 48)
  else if 'a' ≤ c ∧ c ≤ 'f' then some (c.toNat - 87)
  else if 'A' ≤ c ∧ c ≤ 'F' then some (c.toNat - 55)
  else none

/-- The number written by four hexadecimal digits. -/
def hexQuad? : List Char → Option (Nat × List Char)
  | a :: b :: c :: d :: rest => do
    let a ← hexValue? a
    let b ← hexValue? b
    let c ← hexValue? c
    let d ← hexValue? d
    return (((a * 16 + b) * 16 + c) * 16 + d, rest)
  | _ => none

/-- The character of a code point; a half of a pair stands for nothing. -/
def codePoint (n : Nat) : Char :=
  if 0xd800 ≤ n ∧ n ≤ 0xdfff then '�' else Char.ofNat n

/-- The character written by `\uXXXX` after the `u`, where two halves of a pair belong together. -/
def unicodeEscape (rest : List Char) : Except Refusal (Char × List Char) :=
  match hexQuad? rest with
  | none => refuse "Invalid \\uXXXX escape" rest
  | some (n, after) =>
    if 0xd800 ≤ n ∧ n ≤ 0xdbff then
      match after with
      | '\\' :: 'u' :: more =>
        match hexQuad? more with
        | some (m, after') =>
          if 0xdc00 ≤ m ∧ m ≤ 0xdfff then
            .ok (Char.ofNat (0x10000 + (n - 0xd800) * 0x400 + (m - 0xdc00)), after')
          else .ok (codePoint n, after)
        | none => .ok (codePoint n, after)
      | _ => .ok (codePoint n, after)
    else .ok (codePoint n, after)

/-- The meaning of a one-letter escape. -/
def simpleEscape? : Char → Option Char
  | '"' => some '"'
  | '\\' => some '\\'
  | '/' => some '/'
  | 'b' => some '\x08'
  | 'f' => some '\x0c'
  | 'n' => some '\n'
  | 'r' => some '\r'
  | 't' => some '\t'
  | _ => none

/-- The characters of a text up to its closing quote. `start` is what is left from the opening
quote on; the fuel bounds the number of characters. -/
def stringFrom (start : Nat) :
    Nat → List Char → List Char → Except Refusal (String × List Char)
  | 0, _, _ => .error ("Unterminated string starting at", start)
  | fuel + 1, cs, acc =>
    match cs with
    | [] => .error ("Unterminated string starting at", start)
    | '"' :: rest => .ok (String.ofList acc.reverse, rest)
    | '\\' :: rest =>
      match rest with
      | [] => .error ("Unterminated string starting at", start)
      | 'u' :: rest' => do
        let (c, after) ← unicodeEscape rest'
        stringFrom start fuel after (c :: acc)
      | e :: rest' =>
        match simpleEscape? e with
        | some c => stringFrom start fuel rest' (c :: acc)
        | none => refuse "Invalid \\escape" ('\\' :: rest)
    | c :: rest =>
      if c.toNat < 32 then refuse "Invalid control character at" (c :: rest)
      else stringFrom start fuel rest (c :: acc)

/-- A text after its opening quote. -/
def readString (rest : List Char) : Except Refusal (String × List Char) :=
  stringFrom (rest.length + 1) (rest.length + 1) rest []

/-- The whole part of a number: a zero, or digits that do not begin with one. -/
def wholePart (cs : List Char) : List Char :=
  match cs with
  | '0' :: _ => ['0']
  | _ => cs.takeWhile Char.isDigit

/-- The fraction after a whole part, with its point. -/
def fractionPart (cs : List Char) : List Char :=
  match cs with
  | '.' :: r =>
    let ds := r.takeWhile Char.isDigit
    if ds.isEmpty then [] else '.' :: ds
  | _ => []

/-- The exponent after a number, with its mark. -/
def exponentPart (cs : List Char) : List Char :=
  match cs with
  | e :: r =>
    if e = 'e' ∨ e = 'E' then
      let (sign, r) :=
        match r with
        | '-' :: r' => (['-'], r')
        | '+' :: r' => (['+'], r')
        | r' => ([], r')
      let ds := r.takeWhile Char.isDigit
      if ds.isEmpty then [] else e :: sign ++ ds
    else []
  | [] => []

/-- The number at the front of the text. -/
def number? (cs : List Char) : Option (Json × List Char) :=
  let (negative, body) :=
    match cs with
    | '-' :: r => (true, r)
    | r => (false, r)
  let whole := wholePart body
  if whole.isEmpty then none
  else
    let rest := body.drop whole.length
    let frac := fractionPart rest
    let rest := rest.drop frac.length
    let exp := exponentPart rest
    let rest := rest.drop exp.length
    if frac.isEmpty && exp.isEmpty then
      let n : Int := Decimal.digitsValue whole
      some (int (if negative then -n else n), rest)
    else
      let x := (Decimal.readUnsigned? (whole ++ frac ++ exp)).getD 0
      some (float (if negative then -x else x), rest)

/-- The words for constants. -/
def constants : List (List Char × Json) :=
  [("null".toList, null), ("true".toList, bool true), ("false".toList, bool false),
    ("NaN".toList, float Decimal.nan), ("Infinity".toList, float Decimal.infinity),
    ("-Infinity".toList, float (-Decimal.infinity))]

/-- The constant at the front of the text. -/
def constant? (cs : List Char) : Option (Json × List Char) :=
  constants.findSome? fun (w, j) => if w.isPrefixOf cs then some (j, cs.drop w.length) else none

/-- Puts a value under a key, at the place where the key first stood. -/
def insert (entries : List (String × Json)) (key : String) (j : Json) : List (String × Json) :=
  if entries.any (·.1 == key) then entries.map fun e => if e.1 == key then (key, j) else e
  else entries ++ [(key, j)]

mutual

/-- The document at the front of the text. The fuel bounds the number of documents in it. -/
def valueFrom : Nat → List Char → Except Refusal (Json × List Char)
  | 0, cs => refuse "Expecting value" cs
  | fuel + 1, cs =>
    match cs with
    | '"' :: rest => do
      let (s, rest) ← readString rest
      return (str s, rest)
    | '[' :: rest =>
      match skipBlanks rest with
      | ']' :: rest' => .ok (arr [], rest')
      | rest' => do
        let (xs, rest'') ← elementsFrom fuel rest'
        return (arr xs, rest'')
    | c :: rest =>
      if c = '\x7b' then
        match skipBlanks rest with
        | [] => refuse "Expecting property name enclosed in double quotes" []
        | d :: rest' =>
          if d = '\x7d' then .ok (obj [], rest')
          else membersFrom fuel [] (d :: rest')
      else
        match constant? cs with
        | some r => .ok r
        | none =>
          match number? cs with
          | some r => .ok r
          | none => refuse "Expecting value" cs
    | [] => refuse "Expecting value" cs

/-- The elements of a list up to its closing bracket. -/
def elementsFrom : Nat → List Char → Except Refusal (List Json × List Char)
  | 0, cs => refuse "Expecting value" cs
  | fuel + 1, cs => do
    let (x, rest) ← valueFrom fuel cs
    match skipBlanks rest with
    | ']' :: rest' => return ([x], rest')
    | ',' :: rest' =>
      let (xs, rest'') ← elementsFrom fuel (skipBlanks rest')
      return (x :: xs, rest'')
    | rest' => refuse "Expecting ',' delimiter" rest'

/-- The members of an object up to its closing brace, after those already read. -/
def membersFrom : Nat → List (String × Json) → List Char → Except Refusal (Json × List Char)
  | 0, _, cs => refuse "Expecting value" cs
  | fuel + 1, entries, cs =>
    match cs with
    | '"' :: rest => do
      let (key, rest) ← readString rest
      match skipBlanks rest with
      | ':' :: rest' =>
        let (j, rest'') ← valueFrom fuel (skipBlanks rest')
        let entries := insert entries key j
        match skipBlanks rest'' with
        | ',' :: more => membersFrom fuel entries (skipBlanks more)
        | d :: more =>
          if d = '\x7d' then return (obj entries, more)
          else refuse "Expecting ',' delimiter" (d :: more)
        | [] => refuse "Expecting ',' delimiter" []
      | rest' => refuse "Expecting ':' delimiter" rest'
    | _ => refuse "Expecting property name enclosed in double quotes" cs

end

/-- The message for what was found at a place of a text. -/
def refusalMessage (cs : List Char) (what : String) (left : Nat) : String :=
  let pos := cs.length - left
  let before := cs.take pos
  let line := before.countP (· = '\n') + 1
  let column := (before.reverse.takeWhile (· ≠ '\n')).length + 1
  s!"{what}: line {line} column {column} (char {pos})"

/-- Reads a text that holds one document. -/
def parse (s : String) : Except Fault Json :=
  let cs := s.toList
  let refused (r : Refusal) : Except Fault Json :=
    .error ⟨.malformedJson, refusalMessage cs r.1 r.2⟩
  match cs with
  | '﻿' :: _ => refused ("Unexpected UTF-8 BOM (decode using utf-8-sig)", cs.length)
  | _ =>
    match valueFrom (cs.length + 1) (skipBlanks cs) with
    | .error r => refused r
    | .ok (j, rest) =>
      match skipBlanks rest with
      | [] => .ok j
      | rest' => refused ("Extra data", rest'.length)

end Assay.Json
