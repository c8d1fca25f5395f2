import Assay.Decimal.Written

/-!
# Charts

A chart is a list of drawing calls. Colours are chosen by a scale that puts a fixed number in the
middle.
-/

namespace Assay.Chart

/-- A scale with a middle: the lowest number counts zero, the middle one half, the highest one. -/
structure Norm where
  low : Float
  middle : Float
  high : Float
  clip : Bool

namespace Norm

/-- The value at `x` of the line through two points; at the first point it is exact. -/
def between (x x₀ y₀ x₁ y₁ : Float) : Float :=
  if x == x₀ then y₀ else (y₁ - y₀) / (x₁ - x₀) * (x - x₀) + y₀

/-- The value of a number: linear between the three points, constant outside. -/
def value (n : Norm) (x : Float) : Float :=
  if Decimal.isNaN x then x
  else if n.high < x then 1
  else if x < n.low then 0
  else if x < n.middle then between x n.low 0 n.middle 0.5
  else if x < n.high then between x n.middle 0.5 n.high 1
  else 1

end Norm

/-- An argument of a drawing call. -/
inductive Argument where
  | number (x : Float)
  | text (s : String)
  | list (xs : List Argument)
  /-- A colour with its meaning. -/
  | patch (color label : String)
  | norm (n : Norm)

namespace Argument

def numbers (xs : List Float) : Argument := .list (xs.map number)

def texts (xs : List String) : Argument := .list (xs.map text)

end Argument

/-- A drawing call with its positional and its named arguments. -/
structure Call where
  name : String
  args : List Argument
  named : List (String × Argument)

end Assay.Chart
