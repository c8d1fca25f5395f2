import Mathlib.Algebra.Order.Field.Rat
import Mathlib.Data.Sign.Basic
import Assay.Verdict.Prediction

/-!
# The exact scale

The rational numbers with both infinities, on which wagers and scores are computed without rounding.
What has no value, such as the difference of infinities or a quotient by zero, is `nan`, which is
neither below nor above anything nor the same as itself.
-/

namespace Assay

inductive Exact where
  | rational (q : ℚ)
  | infinity
  | negInfinity
  | nan
  deriving DecidableEq

namespace Exact

def add : Exact → Exact → Exact
  | rational p, rational q => rational (p + q)
  | nan, _ | _, nan | infinity, negInfinity | negInfinity, infinity => nan
  | infinity, _ | _, infinity => infinity
  | negInfinity, _ | _, negInfinity => negInfinity

def neg : Exact → Exact
  | rational q => rational (-q)
  | infinity => negInfinity
  | negInfinity => infinity
  | nan => nan

def sign : Exact → SignType
  | rational q => SignType.sign q
  | infinity => 1
  | negInfinity => -1
  | nan => 0

/-- The infinity of a sign. -/
def unbounded : SignType → Exact
  | 1 => infinity
  | -1 => negInfinity
  | 0 => nan

def mul : Exact → Exact → Exact
  | rational p, rational q => rational (p * q)
  | x, y => unbounded (x.sign * y.sign)

def div : Exact → Exact → Exact
  | rational p, rational q => if q = 0 then nan else rational (p / q)
  | rational _, infinity | rational _, negInfinity => rational 0
  | infinity, rational q => unbounded (SignType.sign q)
  | negInfinity, rational q => unbounded (-SignType.sign q)
  | _, _ => nan

def abs : Exact → Exact
  | rational q => rational |q|
  | infinity | negInfinity => infinity
  | nan => nan

def less : Exact → Exact → Bool
  | rational p, rational q => p < q
  | nan, _ | _, nan | infinity, _ | _, negInfinity => false
  | _, _ => true

def same : Exact → Exact → Bool
  | nan, _ => false
  | x, y => x = y

/-- The number that a literal says. -/
def ofLiteral : Decimal.Literal → Exact
  | .finite negative digits exponent =>
    let q : ℚ := digits * 10 ^ exponent
    rational (if negative then -q else q)
  | .infinite negative => if negative then negInfinity else infinity
  | .nan _ => nan

instance : Scale Exact where
  ofNat n := rational n
  ofLiteral := ofLiteral
  add := add
  sub x y := add x (neg y)
  mul := mul
  div := div
  neg := neg
  abs := abs
  infinity := infinity
  less := less
  same := same

section Rational

open Scale

variable (p q : ℚ)

@[simp] theorem ofNat_eq (n : Nat) : (ofNat n : Exact) = rational n := rfl

@[simp] theorem infinity_eq : (Scale.infinity : Exact) = infinity := rfl

@[simp] theorem neg_infinity : Scale.neg infinity = negInfinity := rfl

@[simp] theorem same_infinity (x : Exact) : Scale.same x infinity = decide (x = infinity) := by
  cases x <;> rfl

@[simp] theorem same_negInfinity (x : Exact) :
    Scale.same x negInfinity = decide (x = negInfinity) := by
  cases x <;> rfl

@[simp] theorem add_rational : Scale.add (rational p) (rational q) = rational (p + q) := rfl

@[simp] theorem sub_rational : Scale.sub (rational p) (rational q) = rational (p - q) := by
  rw [sub_eq_add_neg]
  rfl

@[simp] theorem mul_rational : Scale.mul (rational p) (rational q) = rational (p * q) := rfl

@[simp] theorem neg_rational : Scale.neg (rational p) = rational (-p) := rfl

@[simp] theorem abs_rational : Scale.abs (rational p) = rational |p| := rfl

@[simp] theorem less_rational : Scale.less (rational p) (rational q) = decide (p < q) := rfl

@[simp] theorem same_rational : Scale.same (rational p) (rational q) = decide (p = q) :=
  decide_eq_decide.2 (by rw [rational.injEq])

variable {q}

theorem div_rational (h : q ≠ 0) :
    Scale.div (rational p) (rational q) = rational (p / q) := if_neg h

end Rational

instance : LE Exact where
  le x y := x.less y = true ∨ x.same y = true

@[simp] theorem rational_le_rational {p q : ℚ} : rational p ≤ rational q ↔ p ≤ q := by
  rw [le_iff_lt_or_eq]
  exact or_congr decide_eq_true_iff (decide_eq_true_iff.trans (by rw [rational.injEq]))

theorem le_self {x : Exact} (h : x ≠ nan) : x ≤ x := by
  cases x with
  | nan => exact absurd rfl h
  | _ => exact .inr (by simp [same])

theorem negInfinity_le {x : Exact} (h : x ≠ nan) : negInfinity ≤ x := by
  cases x with
  | nan => exact absurd rfl h
  | negInfinity => exact le_self h
  | _ => exact .inl rfl

theorem le_infinity {x : Exact} (h : x ≠ nan) : x ≤ infinity := by
  cases x with
  | nan => exact absurd rfl h
  | infinity => exact le_self h
  | _ => exact .inl rfl

/-- What can be compared is a pair of rationals, or one of the two is an infinity on its side. -/
theorem le_cases {x y : Exact} (h : x ≤ y) :
    (∃ p q, p ≤ q ∧ x = rational p ∧ y = rational q) ∨ (x = negInfinity ∧ y ≠ nan) ∨
      (x ≠ nan ∧ y = infinity) := by
  cases x with
  | rational p =>
    cases y with
    | rational q => exact .inl ⟨p, q, rational_le_rational.1 h, rfl, rfl⟩
    | infinity => exact .inr (.inr ⟨by simp, rfl⟩)
    | _ => rcases h with h | h <;> cases h
  | infinity =>
    cases y with
    | infinity => exact .inr (.inr ⟨by simp, rfl⟩)
    | _ => rcases h with h | h <;> cases h
  | negInfinity =>
    refine .inr (.inl ⟨rfl, ?_⟩)
    rintro rfl
    rcases h with h | h <;> cases h
  | nan => cases y <;> rcases h with h | h <;> cases h

theorem ne_nan_of_le {x y : Exact} (h : x ≤ y) : x ≠ nan ∧ y ≠ nan := by
  rcases le_cases h with ⟨p, q, -, rfl, rfl⟩ | ⟨rfl, hy⟩ | ⟨hx, rfl⟩
  exacts [⟨by simp, by simp⟩, ⟨by simp, hy⟩, ⟨hx, by simp⟩]

theorem ne_infinity_of_le {x y : Exact} (h : x ≤ y) (hy : y ≠ infinity) : x ≠ infinity := by
  rintro rfl
  rcases le_cases h with ⟨p, q, -, hp, -⟩ | ⟨hx, -⟩ | ⟨-, rfl⟩
  · cases hp
  · cases hx
  · exact hy rfl

theorem le_rational_trans {x : Exact} {p q : ℚ} (h : x ≤ rational p) (hpq : p ≤ q) :
    x ≤ rational q := by
  rcases le_cases h with ⟨p', q', hle, rfl, hq⟩ | ⟨rfl, -⟩ | ⟨-, hq⟩
  · obtain rfl := rational.inj hq
    exact rational_le_rational.2 (hle.trans hpq)
  · exact negInfinity_le nofun
  · cases hq

theorem neg_ne_nan {x : Exact} (h : x ≠ nan) : x.neg ≠ nan := by
  cases x <;> simp_all [neg]

/-- The opposite numbers are ordered the other way. -/
theorem neg_le_of_le {x y : Exact} (h : x ≤ y) : y.neg ≤ x.neg := by
  rcases le_cases h with ⟨p, q, hpq, rfl, rfl⟩ | ⟨rfl, hy⟩ | ⟨hx, rfl⟩
  · exact rational_le_rational.2 (neg_le_neg hpq)
  · exact le_infinity (neg_ne_nan hy)
  · exact negInfinity_le (neg_ne_nan hx)

instance : Add Exact := ⟨add⟩

instance : Zero Exact := ⟨rational 0⟩

theorem add_eq (x y : Exact) : x + y = add x y := rfl

theorem zero_eq : (0 : Exact) = rational 0 := rfl

instance : AddCommMonoid Exact where
  add_assoc x y z := by cases x <;> cases y <;> cases z <;> simp [add_eq, add, add_assoc]
  zero_add x := by cases x <;> simp [add_eq, zero_eq, add]
  add_zero x := by cases x <;> simp [add_eq, zero_eq, add]
  add_comm x y := by cases x <;> cases y <;> simp [add_eq, add, add_comm]
  nsmul := nsmulRec

/-- A sum without an infinity upwards has a value, and is infinite downwards if one of its parts
is. -/
theorem add_ne_nan {x y : Exact} (hx : x ≠ nan) (hy : y ≠ nan) (hxi : x ≠ infinity)
    (hyi : y ≠ infinity) :
    x + y ≠ nan := by
  cases x <;> cases y <;> simp_all [add_eq, add]

theorem negInfinity_add {x : Exact} (hx : x ≠ nan) (hxi : x ≠ infinity) :
    negInfinity + x = negInfinity := by
  cases x <;> simp_all [add_eq, add]

/-- Sums are ordered by their parts, as long as no part is infinite upwards. -/
theorem add_le_add_of_ne_infinity {x y z w : Exact} (h : x ≤ y) (h' : z ≤ w) (hy : y ≠ infinity)
    (hw : w ≠ infinity) :
    x + z ≤ y + w := by
  obtain ⟨hxn, hyn⟩ := ne_nan_of_le h
  obtain ⟨hzn, hwn⟩ := ne_nan_of_le h'
  have hsum : y + w ≠ nan := add_ne_nan hyn hwn hy hw
  rcases le_cases h with ⟨p, q, hpq, rfl, rfl⟩ | ⟨rfl, -⟩ | ⟨-, rfl⟩
  · rcases le_cases h' with ⟨p', q', hpq', rfl, rfl⟩ | ⟨rfl, -⟩ | ⟨-, rfl⟩
    · exact rational_le_rational.2 (add_le_add hpq hpq')
    · rw [add_comm, negInfinity_add hxn nofun]
      exact negInfinity_le hsum
    · exact absurd rfl hw
  · rw [negInfinity_add hzn (ne_infinity_of_le h' hw)]
    exact negInfinity_le hsum
  · exact absurd rfl hy

end Exact

end Assay
