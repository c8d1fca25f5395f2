import Assay.Decimal.Quotient
import Assay.Decimal.Written
import Assay.Fault

/-!
# Quotients and logarithms that may fail

A quotient has no value for the divisor zero, and a logarithm none for numbers that are not
positive.
-/

namespace Assay.Decimal

def divisionByZero : Fault := ⟨.divisionByZero, "division by zero"⟩

/-- The number nearest to the quotient of two whole numbers. -/
def divide (a b : Int) : Except Fault Float :=
  if b = 0 then .error divisionByZero
  else
    let x := ratio a b
    if isFinite x then .ok x
    else .error ⟨.overflow, "integer division result too large for a float"⟩

def logarithm (x : Float) : Except Fault Float :=
  if x ≤ 0 then .error (.malformed "math domain error") else .ok x.log10

/-- The logarithm of a whole number, which may be larger than every floating-point number. -/
def intLogarithm (n : Int) : Except Fault Float :=
  if n ≤ 0 then .error (.malformed "math domain error")
  else
    let spare := n.toNat.log2 - 60
    let lead := n.toNat / Nat.pow 2 spare
    .ok (lead.toFloat.log10 + spare.toFloat * (2 : Float).log10)

end Assay.Decimal
