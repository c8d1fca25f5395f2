/-!
# Blanks

White space of every script, and trimming.
-/

namespace Assay.Text

/-- White space: tabs, line breaks, separators and the spaces of every width. -/
def isBlank (c : Char) : Bool :=
  let n := c.toNat
  (9 ≤ n && n ≤ 13) || (28 ≤ n && n ≤ 32) || n == 0x85 || n == 0xa0 || n == 0x1680 ||
    (0x2000 ≤ n && n ≤ 0x200a) || n == 0x2028 || n == 0x2029 || n == 0x202f || n == 0x205f ||
    n == 0x3000

/-- The list without the elements of `p` at its end. -/
def dropEnd {α : Type} (p : α → Bool) (xs : List α) : List α :=
  (xs.reverse.dropWhile p).reverse

/-- The list without the elements of `p` at both ends. -/
def dropEnds {α : Type} (p : α → Bool) (xs : List α) : List α :=
  dropEnd p (xs.dropWhile p)

/-- The text without the blanks around it. -/
def trim (s : String) : String :=
  String.ofList (dropEnds isBlank s.toList)

end Assay.Text
