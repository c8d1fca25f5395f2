import Mathlib.Tactic.FieldSimp
import Mathlib.Tactic.Linarith
import Mathlib.Tactic.Positivity
import Mathlib.Tactic.Ring
import Assay.Proofs.Verdict.Exact

/-!
# Wagers and probabilities

A probability of one half or more is turned into odds and back without loss, and one below takes the
odds of its complement with the opposite sign. The sure outcomes are infinite wagers. Both are read
as the probability zero, so that the impossible outcome survives, and the certain one does not.
-/

namespace Assay.Prediction

open Exact

variable {p : ℚ} {w w' : Exact}

/-- The wager of a probability that is not one. -/
def odds (p : ℚ) : ℚ := (1 - 2 * p) / (-1 + p) / 2

/-- The probability of a wager that is not negative. -/
def chance (w : ℚ) : ℚ := (w * 2 + 1) / (w * 2 + 2)

theorem wagerOf_one : wagerOf (rational 1) = infinity := by
  simp [wagerOf]

theorem wagerOf_rational (h : p ≠ 1) : wagerOf (rational p) = rational (odds p) := by
  have hpole : -1 + p ≠ 0 := fun h' => h (by linarith)
  simp [wagerOf, h, div_rational, hpole, odds]

theorem probability_infinity : (⟨infinity⟩ : Prediction Exact).probability = rational 0 := by
  simp [probability]

theorem probability_negInfinity : (⟨negInfinity⟩ : Prediction Exact).probability = rational 0 := by
  simp [probability]

theorem probability_rational (w : ℚ) :
    (⟨rational w⟩ : Prediction Exact).probability =
      rational (if 0 < w then chance |w| else 1 - chance |w|) := by
  have hpos : |w| * 2 + 2 ≠ 0 := by positivity
  by_cases hw : 0 < w <;> simp [probability, div_rational, hpos, hw, chance]

theorem odds_nonneg (hhalf : 1 / 2 ≤ p) (hone : p < 1) : 0 ≤ odds p := by
  have hquotient : 0 ≤ (1 - 2 * p) / (-1 + p) := div_nonneg_of_nonpos (by linarith) (by linarith)
  exact div_nonneg hquotient zero_le_two

/-- Odds are read back as their probability. -/
theorem chance_odds (hone : p < 1) : chance (odds p) = p := by
  have hpole : -1 + p ≠ 0 := by linarith
  have hnum : odds p * 2 + 1 = -p / (-1 + p) := by
    rw [odds]
    field_simp
    ring
  have hden : odds p * 2 + 2 = -1 / (-1 + p) := by
    rw [odds]
    field_simp
    ring
  rw [chance, hnum, hden]
  field_simp

/-- A probability of one half or more survives, unless it is one. -/
theorem probability_wagerOf (hhalf : 1 / 2 ≤ p) (hone : p < 1) :
    (⟨wagerOf (rational p)⟩ : Prediction Exact).probability = rational p := by
  have hodds := odds_nonneg hhalf hone
  rw [wagerOf_rational hone.ne, probability_rational, abs_of_nonneg hodds, chance_odds hone]
  by_cases hpos : 0 < odds p
  · rw [if_pos hpos]
  · -- even odds are those of one half, which is its own complement
    have hzero : odds p = 0 := le_antisymm (not_lt.1 hpos) hodds
    have heven : p = 1 / 2 := by
      rw [← chance_odds hone, hzero, chance]
      norm_num
    rw [if_neg hpos, heven]
    norm_num

/-- The opposite wager stands for the complement. -/
theorem probability_neg_wagerOf (hhalf : 1 / 2 < p) (hone : p < 1) :
    (⟨Scale.neg (wagerOf (rational p))⟩ : Prediction Exact).probability = rational (1 - p) := by
  have hodds := odds_nonneg hhalf.le hone
  rw [wagerOf_rational hone.ne, neg_rational, probability_rational, abs_neg, abs_of_nonneg hodds,
    chance_odds hone, if_neg (by linarith)]

/-- Below one half the wager is the opposite of the one of the complement. -/
theorem ofProbability_rational (p : ℚ) : ofProbability (rational p) =
    if p < 1 / 2 then ⟨Scale.neg (wagerOf (rational (1 - p)))⟩ else ⟨wagerOf (rational p)⟩ := by
  have hhalf : Scale.div (rational 1) (rational 2) = rational (1 / 2) := div_rational 1 two_ne_zero
  simp only [ofProbability, ofNat_eq, Nat.cast_one, Nat.cast_ofNat, hhalf, less_rational,
    decide_eq_true_eq, sub_rational]

/-- A probability is read back from its wager exactly if it is not one: certainty is read back as
zero. -/
theorem probability_survives_iff (hzero : 0 ≤ p) (hone : p ≤ 1) :
    ((ofProbability (rational p)).probability = rational p ↔ p ≠ 1) ∧
      (ofProbability (rational p)).probability = rational (if p = 1 then 0 else p) := by
  have hvalue : (ofProbability (rational p)).probability = rational (if p = 1 then 0 else p) := by
    rcases eq_or_lt_of_le hone with rfl | hlt
    · rw [ofProbability_rational, if_neg (by norm_num), wagerOf_one,
        probability_infinity, if_pos rfl]
    rw [if_neg hlt.ne, ofProbability_rational]
    by_cases hhalf : 1 / 2 ≤ p
    · rw [if_neg (not_lt.2 hhalf), probability_wagerOf hhalf hlt]
    rw [if_pos (not_le.1 hhalf)]
    rcases eq_or_lt_of_le hzero with rfl | hpos
    · rw [sub_zero, wagerOf_one, neg_infinity, probability_negInfinity]
    · rw [probability_neg_wagerOf (by linarith) (by linarith), sub_sub_cancel]
  refine ⟨?_, hvalue⟩
  rw [hvalue, rational.injEq]
  split <;> simp_all

theorem probability_survives_impossible :
    (0 : ℚ) ≤ 0 ∧ (0 : ℚ) ≤ 1 ∧ (ofProbability (rational 0)).probability = rational 0 := by
  have h := probability_survives_iff (p := 0) le_rfl zero_le_one
  exact ⟨le_rfl, zero_le_one, h.1.2 zero_ne_one⟩

/-- Certainty does not survive. -/
theorem certainty_read_as_impossible :
    ¬ ∀ p : ℚ, 0 ≤ p → p ≤ 1 → (ofProbability (rational p)).probability = rational p := by
  intro h
  have hone := h 1 zero_le_one le_rfl
  rw [ofProbability_rational, if_neg (by norm_num), wagerOf_one, probability_infinity] at hone
  exact zero_ne_one (rational.inj hone)

/-! ### What a prediction earns -/

/-- A wager on what does not happen is the opposite wager on what does. -/
theorem score_false (w : Exact) :
    (⟨w⟩ : Prediction Exact).score false = (⟨w.neg⟩ : Prediction Exact).score true := rfl

theorem score_infinity : (⟨infinity⟩ : Prediction Exact).score true = rational 1 := by
  have hless : Scale.less (rational 0) infinity = true := rfl
  simp [score, hless]

theorem score_negInfinity : (⟨negInfinity⟩ : Prediction Exact).score true = negInfinity := by
  have hless : Scale.less (rational 0) negInfinity = false := rfl
  simp [score, hless]

/-- What a finite wager on an outcome earns if it happens. -/
def earning (w : ℚ) : ℚ := if 0 < w then 1 - 1 / (w + 1) else w

theorem score_rational (w : ℚ) :
    (⟨rational w⟩ : Prediction Exact).score true = rational (earning w) := by
  by_cases hw : 0 < w
  · have hpos : w + 1 ≠ 0 := by linarith
    simp [score, earning, hw, div_rational, hpos]
  · simp [score, earning, hw]

theorem earning_lt_one (w : ℚ) : earning w < 1 := by
  rw [earning]
  split
  case isTrue hw =>
    have hpart : 0 < 1 / (w + 1) := by positivity
    linarith
  case isFalse hw => linarith

theorem earning_pos {w : ℚ} (h : 0 < w) : 0 < earning w := by
  rw [earning, if_pos h, sub_pos, div_lt_one (by linarith)]
  linarith

theorem earning_mono : Monotone earning := by
  intro w w' h
  by_cases hw : 0 < w
  · have hw' : 0 < w' := hw.trans_le h
    rw [earning, earning, if_pos hw, if_pos hw']
    gcongr
  · by_cases hw' : 0 < w'
    · calc earning w = w := if_neg hw
        _ ≤ 0 := not_lt.1 hw
        _ ≤ earning w' := (earning_pos hw').le
    · rwa [earning, earning, if_neg hw, if_neg hw']

/-- A wager that has a value earns at most one. -/
theorem score_le_one (h : w ≠ nan) (happens : Bool) :
    (⟨w⟩ : Prediction Exact).score happens ≤ rational 1 := by
  have htrue : ∀ {x : Exact}, x ≠ nan → (⟨x⟩ : Prediction Exact).score true ≤ rational 1 := by
    intro x hx
    cases x with
    | rational q =>
      rw [score_rational]
      exact rational_le_rational.2 (earning_lt_one q).le
    | infinity =>
      rw [score_infinity]
      exact le_self nofun
    | negInfinity =>
      rw [score_negInfinity]
      exact negInfinity_le nofun
    | nan => exact absurd rfl hx
  cases happens with
  | true => exact htrue h
  | false => exact htrue (neg_ne_nan h)

/-- The more is wagered on what happens, the more is earned. -/
theorem score_mono (h : w ≤ w') :
    (⟨w⟩ : Prediction Exact).score true ≤ (⟨w'⟩ : Prediction Exact).score true := by
  have hone := score_le_one (ne_nan_of_le h).1 true
  have hone' := score_le_one (ne_nan_of_le h).2 true
  rcases le_cases h with ⟨p, q, hpq, rfl, rfl⟩ | ⟨rfl, -⟩ | ⟨-, rfl⟩
  · rw [score_rational, score_rational]
    exact rational_le_rational.2 (earning_mono hpq)
  · rw [score_negInfinity]
    exact negInfinity_le (ne_nan_of_le hone').1
  · rwa [score_infinity]

/-- The more is wagered on what does not happen, the less is earned. -/
theorem score_anti (h : w ≤ w') :
    (⟨w'⟩ : Prediction Exact).score false ≤ (⟨w⟩ : Prediction Exact).score false := by
  rw [score_false, score_false]
  exact score_mono (neg_le_of_le h)

end Assay.Prediction
