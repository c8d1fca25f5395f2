import Assay.Fault
import Assay.Text.Blank
import Assay.Text.Quoted

/-!
# Decimal digits

The decimal digits of every script, and whole numbers written with them.
-/

namespace Assay.Text

/-- The zeros of the scripts; the digits 1 to 9 follow each of them. -/
def zeros : Array Nat := #[
  0x30, 0x660, 0x6f0, 0x7c0, 0x966, 0x9e6, 0xa66, 0xae6, 0xb66, 0xbe6, 0xc66, 0xce6, 0xd66, 0xde6,
  0xe50, 0xed0, 0xf20, 0x1040, 0x1090, 0x17e0, 0x1810, 0x1946, 0x19d0, 0x1a80, 0x1a90, 0x1b50,
  0x1bb0, 0x1c40, 0x1c50, 0xa620, 0xa8d0, 0xa900, 0xa9d0, 0xa9f0, 0xaa50, 0xabf0, 0xff10, 0x104a0,
  0x10d30, 0x11066, 0x110f0, 0x11136, 0x111d0, 0x112f0, 0x11450, 0x114d0, 0x11650, 0x116c0, 0x11730,
  0x118e0, 0x11950, 0x11c50, 0x11d50, 0x11da0, 0x11f50, 0x16a60, 0x16ac0, 0x16b50, 0x1d7ce, 0x1d7d8,
  0x1d7e2, 0x1d7ec, 0x1d7f6, 0x1e140, 0x1e2f0, 0x1e4f0, 0x1e950, 0x1fbf0]

/-- The value of a decimal digit of any script. -/
def digit? (c : Char) : Option Nat :=
  let n := c.toNat
  if c.isDigit then some (n - 48)
  else if n < 0x660 then none
  else (zeros.find? fun z => z ≤ n && n < z + 10).map (n - ·)

/-- A decimal digit of any script. -/
def isDecimal (c : Char) : Bool :=
  (digit? c).isSome

/-- The number written by a list of digits. -/
def numberOf (ds : List Nat) : Nat :=
  ds.foldl (fun n d => 10 * n + d) 0

/-- The digits of a number in which single underscores may stand between two digits. The flag tells
whether a digit has just been read. -/
def digitsOf? : Bool → List Char → Option (List Nat)
  | prev, [] => if prev then some [] else none
  | prev, c :: cs =>
    if c = '_' then if prev then digitsOf? false cs else none
    else
      match digit? c with
      | some d => (digitsOf? true cs).map (d :: ·)
      | none => none

/-- Longest number, in digits, that is read or written. -/
def maxDigits : Nat := 4300

/-- The first number that is too long to be written. -/
def writeBound : Nat := Nat.pow 10 maxDigits

/-- The number has no more digits than are written. -/
def isWritable (n : Int) : Bool := n.natAbs < writeBound

/-- A number is too long to be written. -/
def tooLong : Fault :=
  .malformed (s!"Exceeds the limit ({maxDigits} digits) for integer string conversion; " ++
    "use sys.set_int_max_str_digits() to increase the limit")

/-- A number of so many digits is too long to be read. -/
def unreadable (count : Nat) : Fault :=
  .malformed (s!"Exceeds the limit ({maxDigits} digits) for integer string conversion: " ++
    s!"value has {count} digits; " ++ "use sys.set_int_max_str_digits() to increase the limit")

/-- Whether a minus sign stands at the front, and what follows the sign, if there is one. -/
def takeSign : List Char → Bool × List Char
  | '-' :: r => (true, r)
  | '+' :: r => (false, r)
  | r => (false, r)

/-- Reads a whole number: blanks around it, a sign, and digits of any script. -/
def readInt (s : String) : Except Fault Int :=
  let (negative, body) := takeSign (dropEnds isBlank s.toList)
  match digitsOf? false body with
  | none => .error (.malformed s!"invalid literal for int() with base 10: {quote s}")
  | some ds =>
    if ds.length > maxDigits then .error (unreadable ds.length)
    else
      let n : Int := numberOf ds
      .ok (if negative then -n else n)

end Assay.Text
