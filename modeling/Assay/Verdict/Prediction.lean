import Assay.Decimal.Written
import Assay.Text.Cut
import Assay.Verdict.Scale

/-!
# Predictions

A prediction is a wager on an outcome: positive if the outcome is expected, negative if not, and
the larger the surer. A probability stands for the wager at which a fair bet would be indifferent.
-/

namespace Assay

structure Prediction (α : Type) where
  wager : α

namespace Prediction

open Scale

variable {α : Type} [Scale α]

/-- The wager of a probability of at least one half. -/
def wagerOf (p : α) : α :=
  if same p (ofNat 1) then infinity
  else div (div (sub (ofNat 1) (mul (ofNat 2) p)) (add (neg (ofNat 1)) p)) (ofNat 2)

def ofProbability (p : α) : Prediction α :=
  if less p (div (ofNat 1) (ofNat 2)) then ⟨neg (wagerOf (sub (ofNat 1) p))⟩ else ⟨wagerOf p⟩

/-- The probability that a wager stands for; an infinite wager has none and gives zero. -/
def probability (p : Prediction α) : α :=
  if same p.wager (neg infinity) || same p.wager infinity then ofNat 0
  else
    let w := mul (abs p.wager) (ofNat 2)
    let r := div (add w (ofNat 1)) (add w (ofNat 2))
    if less (ofNat 0) p.wager then r else sub (ofNat 1) r

/-- What a prediction earns: a won wager earns less than one, a lost one costs itself. -/
def score (p : Prediction α) (happens : Bool) : α :=
  let w := if happens then p.wager else neg p.wager
  if less (ofNat 0) w then
    if same w infinity then ofNat 1
    else sub (ofNat 1) (div (ofNat 1) (add w (ofNat 1)))
  else w

/-- Reads a wager, or a probability in per cent. -/
def read (s : String) : Except Fault (Prediction α) :=
  match Text.cutAtFirst? '%' s.toList with
  | some (percent, _) => do
    let x ← Decimal.literal (String.ofList percent)
    return ofProbability (div (ofLiteral x) (ofNat 100))
  | none => do return ⟨ofLiteral (← Decimal.literal s)⟩

/-- Reads a prediction in floating-point numbers. -/
def parse (s : String) : Except Fault (Prediction Float) := read s

/-- The probability in per cent, with two places. -/
def text (p : Prediction Float) : String := Decimal.fixed (p.probability * 100) 2 ++ "%"

end Prediction

end Assay
