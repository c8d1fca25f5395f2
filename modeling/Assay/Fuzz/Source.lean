import Assay.Fault

/-!
# Random sources

A source hands out draws: first the ones it was given, then those of a linear congruential
generator of 64 bits, of which the upper 31 are used. Each choice takes one draw.
-/

namespace Assay.Fuzz

structure Source where
  /-- Draws that come first. -/
  script : List Int
  seed : Int
  /-- How many draws were taken. -/
  taken : Nat
  deriving Inhabited

namespace Source

/-- The state of the generator after one more draw. -/
def advance (seed : Int) : Int :=
  (seed * 6364136223846793005 + 1442695040888963407) % 18446744073709551616

def next (s : Source) : Int × Source :=
  match s.script with
  | d :: ds => (d, { s with script := ds, taken := s.taken + 1 })
  | [] =>
    let seed := advance s.seed
    (seed / 8589934592, { s with seed := seed, taken := s.taken + 1 })

end Source

/-- A computation that draws and may fail. What was drawn before a fault stays drawn. -/
abbrev Draw (α : Type) := ExceptT Fault (StateM Source) α

namespace Draw

def fail {α : Type} (f : Fault) : Draw α := throw f

/-- One draw below `n`. -/
def below (n : Nat) : Draw Nat := do
  let d ← modifyGet Source.next
  return (d % n).toNat

/-- A whole number from `lo` to `hi`. -/
def between (lo hi : Int) : Draw Int := do
  return lo + (← below (hi - lo + 1).toNat)

/-- A member of the list `x :: xs`. -/
def oneOf {α : Type} (x : α) (xs : List α) : Draw α := do
  return (x :: xs).getD (← below (xs.length + 1)) x

def coin : Draw Bool := oneOf true [false]

/-- A multiple of an eighth from `lo` to `hi`. -/
def eighths (lo hi : Int) : Draw Float := do
  return Float.ofInt lo + Float.ofInt (← below ((hi - lo) * 8 + 1).toNat) / 8

end Draw

end Assay.Fuzz
