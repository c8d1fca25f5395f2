import Assay.Decimal.Shortest

/-!
# Written floating-point numbers

The text of a floating-point number: its shortest digits, in positional notation when the first
digit stands at the places 10⁻⁴ to 10¹⁵, with an exponent of at least two digits otherwise; and its
text with a fixed number of places, rounded from the exact value with ties to even.
-/

namespace Assay.Decimal

/-- The sign bit. -/
def isNegative (x : Float) : Bool := x.toBits ≥ 0x8000000000000000

/-- The bits without the sign. -/
def magnitudeBits (x : Float) : UInt64 := x.toBits % 0x8000000000000000

def isFinite (x : Float) : Bool := magnitudeBits x < 0x7ff0000000000000

def isNaN (x : Float) : Bool := magnitudeBits x > 0x7ff0000000000000

/-- The digits of `n`, without the zeros at its end, and how many of these there were. -/
def significant (n : Nat) : List Char × Nat :=
  let ds := (Nat.toDigits 10 n).reverse
  let zeros := (ds.takeWhile (· = '0')).length
  ((ds.drop zeros).reverse, zeros)

/-- Digits with the decimal point after the first `point` of them. -/
def positional (ds : List Char) (point : Int) : List Char :=
  if point ≤ 0 then '0' :: '.' :: (List.replicate (-point).toNat '0' ++ ds)
  else
    let p := point.toNat
    if ds.length ≤ p then ds ++ List.replicate (p - ds.length) '0' ++ ['.', '0']
    else ds.take p ++ '.' :: ds.drop p

/-- Digits with the point after the first, and the exponent `e`. -/
def scientific (ds : List Char) (e : Int) : List Char :=
  let mantissa :=
    match ds with
    | [d] => [d]
    | d :: rest => d :: '.' :: rest
    | [] => []
  let es := Nat.toDigits 10 e.natAbs
  let es := if es.length < 2 then '0' :: es else es
  mantissa ++ 'e' :: (if e < 0 then '-' else '+') :: es

/-- The text of a floating-point number. -/
def write (x : Float) : String :=
  if isNaN x then "nan"
  else
    let sign := if isNegative x then "-" else ""
    if !isFinite x then sign ++ "inf"
    else if magnitudeBits x == 0 then sign ++ "0.0"
    else
      let n := shortest (magnitudeBits x)
      let (ds, zeros) := significant n.digits
      let point : Int := n.exponent + zeros + ds.length
      let body := if -4 < point ∧ point ≤ 16 then positional ds point else scientific ds (point - 1)
      sign ++ String.ofList body

/-- The quotient rounded to the nearest whole number, a tie to the even one. -/
def roundDiv (num den : Nat) : Nat :=
  let q := num / den
  let r := num % den
  if 2 * r < den then q
  else if den < 2 * r then q + 1
  else if q % 2 = 0 then q else q + 1

/-- `n` units of `10^(-places)` with the decimal point. -/
def placed (n places : Nat) : String :=
  let ds := Nat.toDigits 10 n
  let ds := List.replicate (places + 1 - ds.length) '0' ++ ds
  let whole := ds.take (ds.length - places)
  let frac := ds.drop (ds.length - places)
  String.ofList (if places = 0 then whole else whole ++ '.' :: frac)

/-- A finite number without its fraction. -/
def wholePart (x : Float) : Int :=
  let (m, q) := unpack (magnitudeBits x)
  let n : Nat := if q ≥ 0 then m * Nat.pow 2 q.toNat else m / Nat.pow 2 (-q).toNat
  if isNegative x then -n else n

/-- The number of units of `10^(-places)` nearest to a finite number without its sign. -/
def units (x : Float) (places : Nat) : Nat :=
  let (m, q) := unpack (magnitudeBits x)
  if q ≥ 0 then m * Nat.pow 2 q.toNat * Nat.pow 10 places
  else roundDiv (m * Nat.pow 10 places) (Nat.pow 2 (-q).toNat)

/-- The number with a fixed count of places. -/
def fixed (x : Float) (places : Nat) : String :=
  if isNaN x then "nan"
  else
    let sign := if isNegative x then "-" else ""
    if !isFinite x then sign ++ "inf"
    else sign ++ placed (units x places) places

end Assay.Decimal
