import Assay.Fault
import Assay.Pattern.Basic

/-!
# Reading patterns

Alternatives, sequences, groups, sets of characters, escapes and repetitions. A lazy repetition
finds the same texts as a greedy one.
-/

namespace Assay.Pattern

def literal (c : Char) : Pattern := .chars ⟨[.range c c], false⟩

/-- Every character but the line feed. -/
def anyChar : Pattern := .chars ⟨[.range '\n' '\n'], true⟩

/-- The class of characters that a letter names after a backslash. -/
def named? : Char → Option Part
  | 'd' => some (.named .digit false)
  | 'D' => some (.named .digit true)
  | 's' => some (.named .blank false)
  | 'S' => some (.named .blank true)
  | 'w' => some (.named .word false)
  | 'W' => some (.named .word true)
  | _ => none

/-- The character that a letter stands for after a backslash; other letters stand for nothing. -/
def control? : Char → Option Char
  | 'n' => some '\n'
  | 't' => some '\t'
  | 'r' => some '\r'
  | 'f' => some '\x0c'
  | 'v' => some '\x0b'
  | 'a' => some '\x07'
  | c => if c.isAlphanum then none else some c

def escape? (c : Char) : Option Pattern :=
  match c with
  | 'b' => some (.edge (.word false))
  | 'B' => some (.edge (.word true))
  | 'A' => some (.edge .first)
  | 'Z' => some (.edge .last)
  | c =>
    match named? c with
    | some p => some (.chars ⟨[p], false⟩)
    | none => (control? c).map literal

/-- One end of a range, or a named class, in a set. -/
def member? : List Char → Option (Part × List Char)
  | '\\' :: 'b' :: cs => some (.range '\x08' '\x08', cs)
  | '\\' :: c :: cs =>
    match named? c with
    | some p => some (p, cs)
    | none => (control? c).map fun c => (.range c c, cs)
  | ['\\'] => none
  | c :: cs => some (.range c c, cs)
  | [] => none

/-- The parts of a set up to its closing bracket, which is an ordinary character at the front. -/
def members? : Nat → Bool → List Char → Option (List Part × List Char)
  | 0, _, _ => none
  | fuel + 1, front, cs =>
    match cs with
    | [] => none
    | c :: rest =>
      if c = ']' ∧ !front then some ([], rest)
      else do
        let (p, rest) ← member? cs
        match p, rest with
        | .range lo _, '-' :: d :: after =>
          if d = ']' then
            let (ps, rest) ← members? fuel false (d :: after)
            return (p :: .range '-' '-' :: ps, rest)
          else
            match ← member? (d :: after) with
            | (.range hi _, rest) =>
              guard (lo ≤ hi)
              let (ps, rest) ← members? fuel false rest
              return (.range lo hi :: ps, rest)
            | _ => none
        | _, _ =>
          let (ps, rest) ← members? fuel false rest
          return (p :: ps, rest)

def set? : List Char → Option (Pattern × List Char)
  | '^' :: cs => (members? (cs.length + 1) true cs).map fun (ps, r) => (.chars ⟨ps, true⟩, r)
  | cs => (members? (cs.length + 1) true cs).map fun (ps, r) => (.chars ⟨ps, false⟩, r)

def number (ds : List Char) : Option Nat :=
  if ds.isEmpty then none else some (ds.foldl (fun n d => 10 * n + (d.toNat - 48)) 0)

/-- The bounds of a repetition between braces; without bounds the brace is an ordinary one. -/
def bounds? (cs : List Char) : Option (Nat × Option Nat × List Char) :=
  let lo := cs.takeWhile Char.isDigit
  match cs.drop lo.length with
  | '\x7d' :: rest => (number lo).map fun n => (n, some n, rest)
  | ',' :: more =>
    let hi := more.takeWhile Char.isDigit
    match more.drop hi.length with
    | '\x7d' :: rest => some ((number lo).getD 0, number hi, rest)
    | _ => none
  | _ => none

/-- What a repetition mark at the front asks for. -/
def mark? : List Char → Option (Nat × Option Nat × List Char)
  | '*' :: cs => some (0, none, cs)
  | '+' :: cs => some (1, none, cs)
  | '?' :: cs => some (0, some 1, cs)
  | '\x7b' :: cs => bounds? cs
  | _ => none

/-- The pattern with the repetition that follows it; there is at most one. -/
def repeated? (a : Pattern) (cs : List Char) : Option (Pattern × List Char) :=
  match mark? cs with
  | none => some (a, cs)
  | some (least, most, rest) =>
    let rest := match rest with
      | '?' :: r => r
      | r => r
    let ordered := match most with
      | some m => least ≤ m
      | none => true
    let repeatable := match a with
      | .edge _ => false
      | _ => true
    if ordered && repeatable && (mark? rest).isNone then some (.times a least most, rest) else none

mutual

def alternatives? : Nat → List Char → Option (Pattern × List Char)
  | 0, _ => none
  | fuel + 1, cs => do
    let (a, rest) ← sequence? fuel cs
    match rest with
    | '|' :: rest =>
      let (b, rest) ← alternatives? fuel rest
      return (.either a b, rest)
    | _ => return (a, rest)

def sequence? : Nat → List Char → Option (Pattern × List Char)
  | 0, _ => none
  | fuel + 1, cs =>
    match cs with
    | [] => some (.nothing, [])
    | c :: _ =>
      if c = '|' ∨ c = ')' then some (.nothing, cs)
      else do
        let (a, rest) ← atom? fuel cs
        let (a, rest) ← repeated? a rest
        let (b, rest) ← sequence? fuel rest
        return (.both a b, rest)

def atom? : Nat → List Char → Option (Pattern × List Char)
  | 0, _ => none
  | fuel + 1, cs =>
    match cs with
    | '(' :: '?' :: ':' :: cs => group? fuel cs
    | '(' :: '?' :: _ => none
    | '(' :: cs => group? fuel cs
    | '[' :: cs => set? cs
    | '\\' :: c :: cs => (escape? c).map fun p => (p, cs)
    | ['\\'] => none
    | '.' :: cs => some (anyChar, cs)
    | '^' :: cs => some (.edge .first, cs)
    | '$' :: cs => some (.edge .lastLine, cs)
    | c :: cs =>
      if c = '*' ∨ c = '+' ∨ c = '?' ∨ (c = '\x7b' ∧ (bounds? cs).isSome) then none
      else some (literal c, cs)
    | [] => none

/-- Alternatives up to a closing parenthesis. -/
def group? : Nat → List Char → Option (Pattern × List Char)
  | 0, _ => none
  | fuel + 1, cs => do
    match ← alternatives? fuel cs with
    | (a, ')' :: rest) => return (a, rest)
    | _ => none

end

/-- Reads a pattern. -/
def parse (s : String) : Except Fault Pattern :=
  match alternatives? (4 * s.length + 4) s.toList with
  | some (p, []) => .ok p
  | _ => .error ⟨.badPattern, s⟩

end Assay.Pattern
