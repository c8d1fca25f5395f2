import Assay.Text.Blank
import Assay.Text.Digit
import Assay.Text.Word

/-!
# Patterns

Regular expressions, and whether one is found in a text. A matcher goes from a place in the text to
the places where a match that begins there can end.
-/

namespace Assay

namespace Pattern

/-- Classes of characters with a name. -/
inductive Named where
  | digit | blank | word
  deriving DecidableEq

def Named.holds : Named → Char → Bool
  | digit, c => Text.isDecimal c
  | blank, c => Text.isBlank c
  | word, c => Text.isWord c

/-- A part of a set of characters. -/
inductive Part where
  | range (lo hi : Char)
  | named (n : Named) (negated : Bool)

def Part.holds : Part → Char → Bool
  | range lo hi, c => lo ≤ c && c ≤ hi
  | named n negated, c => n.holds c != negated

/-- A set of characters. -/
structure Chars where
  parts : List Part
  negated : Bool

def Chars.holds (s : Chars) (c : Char) : Bool := s.parts.any (·.holds c) != s.negated

/-- A condition on a place. -/
inductive Edge where
  | first | last
  /-- The end, or before a line feed that ends the text. -/
  | lastLine
  /-- Between a word character and another. -/
  | word (negated : Bool)

/-- A place in a text: what stands before it, the nearest first, and what follows. -/
structure Spot where
  before : List Char
  after : List Char

def Edge.holds : Edge → Spot → Bool
  | first, s => s.before.isEmpty
  | last, s => s.after.isEmpty
  | lastLine, s => s.after.isEmpty || s.after == ['\n']
  | word negated, s =>
    let isWord (cs : List Char) : Bool := cs.head?.any Text.isWord
    (isWord s.before != isWord s.after) != negated

end Pattern

inductive Pattern where
  | nothing
  | chars (s : Pattern.Chars)
  | edge (e : Pattern.Edge)
  | both (a b : Pattern)
  | either (a b : Pattern)
  /-- At least `least` times, at most `most` times if that is given. -/
  | times (a : Pattern) (least : Nat) (most : Option Nat)

namespace Pattern

/-- Places without repetition. -/
def distinct (ss : List Spot) : List Spot :=
  ss.foldl (fun seen s =>
    if seen.any fun t => t.after.length = s.after.length then seen else seen ++ [s]) []

/-- All places reached by at most `n` steps. -/
def closure (step : Spot → List Spot) : Nat → List Spot → List Spot
  | 0, ss => ss
  | n + 1, ss => closure step n (distinct (ss ++ ss.flatMap step))

/-- All places reached by exactly `n` steps. -/
def iterate (step : Spot → List Spot) : Nat → List Spot → List Spot
  | 0, ss => ss
  | n + 1, ss => iterate step n (distinct (ss.flatMap step))

/-- Where a match that begins at a place can end. -/
def ends : Pattern → Spot → List Spot
  | nothing, s => [s]
  | chars cs, s =>
    match s.after with
    | c :: rest => if cs.holds c then [⟨c :: s.before, rest⟩] else []
    | [] => []
  | edge e, s => if e.holds s then [s] else []
  | both a b, s => distinct ((a.ends s).flatMap b.ends)
  | either a b, s => distinct (a.ends s ++ b.ends s)
  | times a least most, s =>
    let first := iterate a.ends least [s]
    match most with
    | some m => closure a.ends (m - least) first
    | none => closure a.ends (s.after.length + 1) first

/-- A match begins at some place from here on. -/
def foundFrom (p : Pattern) : List Char → List Char → Bool
  | before, [] => !(p.ends ⟨before, []⟩).isEmpty
  | before, c :: cs => !(p.ends ⟨before, c :: cs⟩).isEmpty || foundFrom p (c :: before) cs

/-- The pattern is found somewhere in the text. -/
def found (p : Pattern) (s : String) : Bool := foundFrom p [] s.toList

end Pattern

end Assay
