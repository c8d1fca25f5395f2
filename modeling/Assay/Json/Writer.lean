import Assay.Decimal.Written
import Assay.Json.Basic

/-!
# Writing JSON

Documents as ASCII text, on one line or with one entry a line.
-/

namespace Assay.Json

/-- A character of a text in ASCII; characters beyond the basic plane take two escapes. -/
def escapeChar (c : Char) : List Char :=
  let n := c.toNat
  let unit (u : Nat) : List Char := '\\' :: 'u' :: Text.hexDigits 4 u
  if c = '"' then ['\\', '"']
  else if c = '\\' then ['\\', '\\']
  else if c = '\n' then ['\\', 'n']
  else if c = '\r' then ['\\', 'r']
  else if c = '\t' then ['\\', 't']
  else if n = 8 then ['\\', 'b']
  else if n = 12 then ['\\', 'f']
  else if 32 ≤ n ∧ n < 127 then [c]
  else if n < 0x10000 then unit n
  else
    let m := n - 0x10000
    unit (0xd800 + m / 0x400) ++ unit (0xdc00 + m % 0x400)

def quoteString (s : String) : String :=
  String.ofList ('"' :: s.toList.flatMap escapeChar ++ ['"'])

def floatText (x : Float) : String :=
  if Decimal.isNaN x then "NaN"
  else if Decimal.isFinite x then Decimal.write x
  else if Decimal.isNegative x then "-Infinity" else "Infinity"

/-- How the entries of a list or object are laid out. -/
structure Layout where
  /-- Blanks a level, or everything on one line. -/
  indent : Option Nat
  comma : String
  colon : String

/-- One line, with a blank after each comma and colon. -/
def Layout.line : Layout := ⟨none, ", ", ": "⟩

/-- One line without blanks. -/
def Layout.compact : Layout := ⟨none, ",", ":"⟩

/-- One entry a line. -/
def Layout.tree (indent : Nat) : Layout := ⟨some indent, ",", ": "⟩

/-- The break before an entry at a level. -/
def Layout.break (l : Layout) (level : Nat) : String :=
  match l.indent with
  | none => ""
  | some n => "\n" ++ "".pushn ' ' (n * level)

/-- Entries between brackets. -/
def Layout.enclose (l : Layout) (level : Nat) (opening closing : String) (parts : List String) :
    String :=
  if parts.isEmpty then opening ++ closing
  else opening ++ l.break (level + 1) ++ (l.comma ++ l.break (level + 1)).intercalate parts ++
    l.break level ++ closing

mutual

/-- The text of a document at a level of nesting. -/
def render (l : Layout) (level : Nat) : Json → String
  | null => "null"
  | bool b => if b then "true" else "false"
  | int n => toString n
  | float x => floatText x
  | str s => quoteString s
  | arr xs => l.enclose level "[" "]" (renderAll l (level + 1) xs)
  | obj es => l.enclose level "\x7b" "\x7d" (renderEntries l (level + 1) es)

def renderAll (l : Layout) (level : Nat) : List Json → List String
  | [] => []
  | j :: js => render l level j :: renderAll l level js

def renderEntries (l : Layout) (level : Nat) : List (String × Json) → List String
  | [] => []
  | (k, j) :: es => (quoteString k ++ l.colon ++ render l level j) :: renderEntries l level es

end

/-- The text of a document. -/
def write (l : Layout) (j : Json) : String := render l 0 j

end Assay.Json
