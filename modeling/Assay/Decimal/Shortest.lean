/-!
# Shortest decimals

The decimal numeral with the fewest digits that reads back as a given binary floating-point number,
and of those the nearest to it. A finite number is `m · 2^q`; a numeral `d · 10^k` reads back as it
exactly when it lies in the interval of numbers that round to it.
-/

namespace Assay.Decimal

/-- A decimal numeral `digits · 10^exponent`. -/
structure Numeral where
  digits : Nat
  exponent : Int
  deriving DecidableEq, Inhabited

/-- The significand and the exponent of a finite non-negative number, from its bits. -/
def unpack (bits : UInt64) : Nat × Int :=
  let e : Nat := (bits.toNat / Nat.pow 2 52) % 2048
  let f : Nat := bits.toNat % Nat.pow 2 52
  if e = 0 then (f, -1074) else (f + Nat.pow 2 52, (e : Int) - 1075)

/-- The number `m · 2^q` and the ends of its rounding interval as fractions over one denominator:
`(value, low, high, denominator)`. -/
def interval (m : Nat) (q : Int) : Nat × Nat × Nat × Nat :=
  -- below a power of two the gap is half as wide
  let narrow := m = Nat.pow 2 52 ∧ q > -1074
  let v := 4 * m
  let lo := if narrow then v - 1 else v - 2
  let hi := v + 2
  if q ≥ 2 then
    let p := Nat.pow 2 (q - 2).toNat
    (v * p, lo * p, hi * p, 1)
  else (v, lo, hi, Nat.pow 2 (2 - q).toNat)

/-- The number of decimal digits of `n`. -/
def width (n : Nat) : Nat := (Nat.toDigits 10 n).length

/-- The least `k` with `a / b < 10^k`, for positive `a` and `b`. -/
def magnitude (a b : Nat) : Int :=
  let k : Int := (width a : Int) - (width b : Int)
  -- 10^(k-1) < a/b < 10^(k+1)
  let below (e : Int) : Bool :=
    if e ≥ 0 then a < b * Nat.pow 10 e.toNat else a * Nat.pow 10 (-e).toNat < b
  if below k then k else k + 1

/-- The two neighbours of `v / den` on the grid of multiples of `10^k`, and which of them lies in
the interval and nearer. An end of the interval belongs to it when the significand is even. -/
def onGrid? (v lo hi den : Nat) (even : Bool) (k : Int) : Option Nat :=
  let scale (x : Nat) : Nat := if k ≥ 0 then x else x * Nat.pow 10 (-k).toNat
  let unit := if k ≥ 0 then den * Nat.pow 10 k.toNat else den
  let v' := scale v
  let lo' := scale lo
  let hi' := scale hi
  let d := v' / unit
  let inside (x : Nat) : Bool :=
    let y := x * unit
    if even then lo' ≤ y && y ≤ hi' else lo' < y && y < hi'
  let a := d > 0 && inside d
  let b := inside (d + 1)
  if a && b then
    let below := v' - d * unit
    let above := (d + 1) * unit - v'
    if below < above then some d
    else if above < below then some (d + 1)
    else if d % 2 = 0 then some d else some (d + 1)
  else if a then some d
  else if b then some (d + 1)
  else none

/-- The first of the grids with 1, 2, … digits that has a numeral in the interval. -/
def search (v lo hi den : Nat) (even : Bool) (mag : Int) : Nat → Int → Numeral
  | 0, _ => ⟨0, 0⟩
  | fuel + 1, n =>
    match onGrid? v lo hi den even (mag - n) with
    | some d => ⟨d, mag - n⟩
    | none => search v lo hi den even mag fuel (n + 1)

/-- The shortest numeral of the finite positive number with these bits. -/
def shortest (bits : UInt64) : Numeral :=
  let (m, q) := unpack bits
  if m = 0 then ⟨0, 0⟩
  else
    let (v, lo, hi, den) := interval m q
    search v lo hi den (m % 2 = 0) (magnitude v den) 18 1

end Assay.Decimal
