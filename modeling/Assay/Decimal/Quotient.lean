/-!
# Quotients of whole numbers

The floating-point number nearest to a quotient.
-/

namespace Assay.Decimal

/-- The number nearest to `p / q`, for `q` other than zero: 62 leading bits of the quotient and one
that tells whether more follow decide the rounding. -/
def quotient (p q : Nat) : Float :=
  if p = 0 then 0
  else
    let k : Int := 62 + q.log2 - p.log2
    let num := if 0 ≤ k then p * Nat.pow 2 k.toNat else p
    let den := if 0 ≤ k then q else q * Nat.pow 2 (-k).toNat
    let m := 2 * (num / den) + (if num % den = 0 then 0 else 1)
    m.toUInt64.toFloat.scaleB (-(k + 1))

/-- The number nearest to a quotient of whole numbers with signs. -/
def ratio (a b : Int) : Float :=
  let x := quotient a.natAbs b.natAbs
  if (a < 0) == (b < 0) then x else -x

end Assay.Decimal
