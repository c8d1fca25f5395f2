import Assay.Fault

/-!
# The calibration sieve

Finds the n-th prime by crossing out multiples, below a limit that is known to be large enough. An
access outside the cells, or a number beyond 32 bits, is a fault.
-/

namespace Assay.Prime

/-- A number has to fit a signed 32-bit word. -/
def fits (n : Nat) : Except Fault Unit :=
  if n < 2147483648 then .ok () else .error ⟨.overflow, "number too large"⟩

def noCell : Fault := .outOfRange "no such cell"

def read (cells : Array Bool) (i : Nat) : Except Fault Bool :=
  match cells[i]? with
  | some b => .ok b
  | none => .error noCell

def cross (cells : Array Bool) (i : Nat) : Except Fault (Array Bool) :=
  if h : i < cells.size then .ok (cells.set i true h) else .error noCell

/-- Crosses out `j`, `j + step`, … up to the limit. -/
def crossMultiples (limit step j : Nat) (cells : Array Bool) : Except Fault (Array Bool) :=
  if limit < j then .ok cells
  else if step = 0 then .error .endless
  else do
    let cells ← cross cells j
    fits (j + step)
    crossMultiples limit step (j + step) cells
termination_by limit + 1 - j

/-- Goes from cell `i` on to the one behind the limit, until `n` primes are found. The prime that is
found next is the one of number `count`. -/
def seek (limit n count i : Nat) (cells : Array Bool) : Except Fault Nat :=
  if limit + 1 < i then .ok i
  else do
    if ← read cells i then
      fits (i + 1)
      seek limit n count (i + 1) cells
    else do
      fits (count + 1)
      if count = n then .ok i
      else do
        fits (i * 2)
        let cells ← crossMultiples limit i (i * 2) cells
        fits (i + 1)
        seek limit n (count + 1) (i + 1) cells
termination_by limit + 2 - i

/-- The n-th prime, if it is at most the limit. -/
def upTo (limit n : Nat) : Except Fault Nat :=
  if n ≤ 1 then .ok 2
  else do
    fits (limit + 1)
    seek limit n 1 2 (Array.replicate (limit + 1) false)

/-- A limit that is not below the n-th prime for `n` of at least 6. -/
def limit (n : Nat) : Nat :=
  let x := Float.ofNat n
  (x * x.log + x * x.log.log).ceil.toUInt64.toNat

/-- The n-th prime; 2 for numbers below 2. -/
def nth (n : Int) : Except Fault Nat := upTo (limit n.toNat) n.toNat

end Assay.Prime
