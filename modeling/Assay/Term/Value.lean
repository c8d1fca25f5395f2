import Assay.Term.Basic

/-!
# Values of terms

The meaning of a term under an assignment. Whole numbers are divided so that the remainder is never
negative; a division by zero has no value.
-/

namespace Assay

/-- Values for the variables. -/
structure Assignment where
  number : String → Int
  truth : String → Bool

namespace Term

def compareInts : Op → Int → Int → Option Bool
  | .eq, a, b => some (a = b)
  | .ne, a, b => some (a ≠ b)
  | .lt, a, b => some (a < b)
  | .le, a, b => some (a ≤ b)
  | .gt, a, b => some (b < a)
  | .ge, a, b => some (b ≤ a)
  | _, _, _ => none

mutual

/-- The value of a term that stands for a whole number. -/
def intValue? (σ : Assignment) : Term → Option Int
  | int n => some n
  | var x => some (σ.number x)
  | bin .add a b => do return (← a.intValue? σ) + (← b.intValue? σ)
  | bin .sub a b => do return (← a.intValue? σ) - (← b.intValue? σ)
  | bin .mul a b => do return (← a.intValue? σ) * (← b.intValue? σ)
  | bin .div a b => do
    let y ← b.intValue? σ
    if y = 0 then none else return (← a.intValue? σ) / y
  | bin .mod a b => do
    let y ← b.intValue? σ
    if y = 0 then none else return (← a.intValue? σ) % y
  | choice c a b => do if ← c.truthValue? σ then a.intValue? σ else b.intValue? σ
  | _ => none

/-- The value of a term that stands for a truth value. -/
def truthValue? (σ : Assignment) : Term → Option Bool
  | truth b => some b
  | flag x => some (σ.truth x)
  | not a => do return !(← a.truthValue? σ)
  | bin .and a b => do return (← a.truthValue? σ) && (← b.truthValue? σ)
  | bin .or a b => do return (← a.truthValue? σ) || (← b.truthValue? σ)
  | bin op a b =>
    match a.intValue? σ, b.intValue? σ with
    | some x, some y => compareInts op x y
    | _, _ =>
      match op, a.truthValue? σ, b.truthValue? σ with
      | .eq, some p, some q => some (p = q)
      | .ne, some p, some q => some (p ≠ q)
      | _, _, _ => none
  | _ => none

end

end Term

end Assay
