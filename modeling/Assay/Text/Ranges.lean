/-!
# Sets of characters by their boundaries

A set of characters is given by the sorted code points at which membership changes: it holds from
the first boundary up to the second, from the third up to the fourth, and so on.
-/

namespace Assay.Text

/-- How many of the sorted `bounds` between `lo` and `hi` are at most `n`, by bisection. -/
def rankBetween (bounds : Array Nat) (n : Nat) : Nat → Nat → Nat → Nat
  | 0, lo, _ => lo
  | fuel + 1, lo, hi =>
    if lo < hi then
      let mid := (lo + hi) / 2
      if bounds.getD mid 0 ≤ n then rankBetween bounds n fuel (mid + 1) hi
      else rankBetween bounds n fuel lo mid
    else lo

/-- The character lies in the set with these boundaries. -/
def inRanges (bounds : Array Nat) (c : Char) : Bool :=
  rankBetween bounds c.toNat bounds.size 0 bounds.size % 2 == 1

end Assay.Text
