import Assay.Decimal.Reading

/-!
# Scales

The arithmetic that wagers and scores are computed with. Programs use floating-point numbers; the
rules themselves are stated for any scale.
-/

namespace Assay

class Scale (α : Type) where
  ofNat : Nat → α
  ofLiteral : Decimal.Literal → α
  add : α → α → α
  sub : α → α → α
  mul : α → α → α
  div : α → α → α
  neg : α → α
  abs : α → α
  infinity : α
  less : α → α → Bool
  same : α → α → Bool

instance : Scale Float where
  ofNat := Float.ofNat
  ofLiteral := Decimal.Literal.toFloat
  add := (· + ·)
  sub := (· - ·)
  mul := (· * ·)
  div := (· / ·)
  neg x := -x
  abs := Float.abs
  infinity := Decimal.infinity
  less x y := x < y
  same x y := x == y

end Assay
