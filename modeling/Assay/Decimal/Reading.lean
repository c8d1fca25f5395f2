import Assay.Text.Digit

/-!
# Reading floating-point numbers

Blanks around the numeral, a sign, digits of any script with single underscores between them, an
exponent; or the words for infinity and not-a-number in any case.
-/

namespace Assay.Decimal

open Text

def infinity : Float := Float.ofBits 0x7ff0000000000000

def nan : Float := Float.ofBits 0x7ff8000000000000

/-- The number nearest to `digits · 10^exponent`. -/
def nearest (digits : Nat) (exponent : Int) : Float :=
  if digits = 0 then 0
  else
    let size : Int := (Nat.toDigits 10 digits).length + exponent
    if size > 310 then infinity
    else if size < -330 then 0
    else if exponent ≥ 0 then Float.ofScientific (digits * Nat.pow 10 exponent.toNat) false 0
    else Float.ofScientific digits true (-exponent).toNat

/-- Underscores may stand only between two digits; they are dropped. -/
def dropUnderscores : Option Char → List Char → Option (List Char)
  | prev, [] => if prev = some '_' then none else some []
  | prev, c :: cs =>
    if c = '_' then
      match prev with
      | some p => if p.isDigit then dropUnderscores (some c) cs else none
      | none => none
    else if prev = some '_' ∧ !c.isDigit then none
    else (dropUnderscores (some c) cs).map (c :: ·)

def digitsValue (cs : List Char) : Nat :=
  cs.foldl (fun n c => 10 * n + (c.toNat - 48)) 0

/-- A numeral in ASCII without sign: digits, a point, an exponent. It stands for the digits, moved
by a power of ten. -/
def unsigned? (cs : List Char) : Option (Nat × Int) :=
  let whole := cs.takeWhile Char.isDigit
  let rest := cs.dropWhile Char.isDigit
  let (frac, rest) :=
    match rest with
    | '.' :: r => (r.takeWhile Char.isDigit, r.dropWhile Char.isDigit)
    | r => ([], r)
  if whole.isEmpty && frac.isEmpty then none
  else
    let value (e : Int) := (digitsValue (whole ++ frac), e - frac.length)
    match rest with
    | [] => some (value 0)
    | c :: r =>
      if c = 'e' ∨ c = 'E' then
        let (negative, ds) :=
          match r with
          | '-' :: d => (true, d)
          | '+' :: d => (false, d)
          | d => (false, d)
        if ds.isEmpty || ds.any (!·.isDigit) then none
        else
          let e : Int := digitsValue ds
          some (value (if negative then -e else e))
      else none

/-- The number nearest to a numeral in ASCII without sign. -/
def readUnsigned? (cs : List Char) : Option Float :=
  (unsigned? cs).map fun x => nearest x.1 x.2

/-- Digits of any script become ASCII digits and blanks become spaces. -/
def toAscii (c : Char) : Char :=
  match digit? c with
  | some d => Char.ofNat (48 + d)
  | none => if isBlank c then ' ' else c

/-- What a text for a floating-point number says: `digits · 10^exponent` or one of the words. -/
inductive Literal where
  | finite (negative : Bool) (digits : Nat) (exponent : Int)
  | infinite (negative : Bool)
  | nan (negative : Bool)
  deriving DecidableEq

/-- Takes a text for a floating-point number apart. -/
def literal? (s : String) : Option Literal :=
  let cs := dropEnds (· = ' ') (s.toList.map toAscii)
  match dropUnderscores none cs with
  | none => none
  | some cs =>
    let (negative, body) :=
      match cs with
      | '-' :: r => (true, r)
      | '+' :: r => (false, r)
      | r => (false, r)
    let word := String.ofList (body.map Char.toLower)
    if word = "inf" ∨ word = "infinity" then some (.infinite negative)
    else if word = "nan" then some (.nan negative)
    else (unsigned? body).map fun x => .finite negative x.1 x.2

/-- Takes a text for a floating-point number apart or tells that it is none. -/
def literal (s : String) : Except Fault Literal :=
  match literal? s with
  | some x => .ok x
  | none => .error (.malformed s!"could not convert string to float: {quote s}")

/-- The floating-point number nearest to what a literal says. -/
def Literal.toFloat (x : Literal) : Float :=
  let sign (negative : Bool) (x : Float) := if negative then -x else x
  match x with
  | .finite negative digits exponent => sign negative (nearest digits exponent)
  | .infinite negative => sign negative infinity
  | .nan negative => sign negative Decimal.nan

/-- Reads a floating-point number. -/
def read? (s : String) : Option Float := (literal? s).map Literal.toFloat

/-- Reads a floating-point number or tells which text is none. -/
def read (s : String) : Except Fault Float := (literal s).map Literal.toFloat

end Assay.Decimal
