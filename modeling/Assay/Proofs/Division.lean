import Assay.Proofs.Machine.Integer
import Assay.Symbolic.Step
import Assay.Term.Value

/-!
# The divisions compared

The machine rounds a quotient down, Java rounds it towards zero, and a term is divided so that the
remainder is not negative. All three divide with a remainder that is smaller than the divisor, so
they agree on the remainder where they agree on the quotient, and that depends on the signs alone
unless the division is exact.
-/

namespace Assay

namespace Machine

/-- The machine pushes `z` for the operation on `x` and `y`, in every state that has them on the
stack. A step does so as well, unless something in the state is too long for the log. -/
def Pushes (a : Arith) (x y z : Int) : Prop :=
  ∀ (lib : Library) (off : Bool) (s : State) (i : Instr) (rest : Stack Value),
    i.op = .binary .int a →
    s.frame.stack = .ofInt y :: .ofInt x :: rest →
      exec lib off s i = .ok (go s ({ s.frame with stack := .ofInt z :: rest } : Frame).advance) ∧
      (fetch lib s.frame.place = .ok i → step lib off s = if s.isWritable then
        .ok (go s ({ s.frame with stack := .ofInt z :: rest } : Frame).advance)
          else .error Text.tooLong)

theorem pushes_of_eval {a : Arith} {x y z : Int} (h : a.eval x y = some z) : Pushes a x y z := by
  rintro lib off s ⟨offset, op⟩ rest rfl hstack
  have hexec : exec lib off s ⟨offset, .binary .int a⟩ =
      .ok (go s ({ s.frame with stack := .ofInt z :: rest } : Frame).advance) := by
    have hbinary := binary_eq s a x y rest hstack
    rw [h] at hbinary
    exact hbinary
  refine ⟨hexec, fun hfetch => ?_⟩
  rw [step_eq hfetch nofun, hexec]

end Machine

namespace Symbolic

/-- A symbolic step pushes `u` for the operation on contents that stand for `t₁` and `t₂`, and goes
on where the second is not zero. -/
def Pushes (a : Arith) (t₁ t₂ u : Term) : Prop :=
  ∀ (p : Place) (s : State) (i : Instr) (c₁ c₂ : Content) (rest : Stack Content),
    i.op = .binary .int a →
    s.stack = c₂ :: c₁ :: rest → c₁.toTerm = .ok t₁ → c₂.toTerm = .ok t₂ →
      exec p s i = .ok [⟨p.advance 1, { s with stack := .term u :: rest }, [.bin .ne t₂ (.int 0)]⟩]

theorem pushes_of_divides {a : Arith} (ha : a.divides = true) (t₁ t₂ : Term) :
    Pushes a t₁ t₂ (.bin (arithOp a) t₁ t₂) := by
  rintro p ⟨locals, stack⟩ ⟨offset, op⟩ c₁ c₂ rest rfl rfl h₁ h₂
  show binary p ⟨locals, c₂ :: c₁ :: rest⟩ a = _
  simp only [binary, pop, Stack.pop, ok_bind, pure_eq_ok, h₁, h₂, ha, if_true]
  rfl

end Symbolic

/-- A quotient and a remainder of `x` by `y`. -/
structure IsDivision (x y q r : Int) : Prop where
  sum : q * y + r = x
  small : r.natAbs < y.natAbs

namespace IsDivision

variable {x y q r q' r' : Int}

/-- Two divisions that agree on the quotient agree on the remainder. -/
theorem agree_iff (h : IsDivision x y q r) (h' : IsDivision x y q' r') :
    q = q' ∧ r = r' ↔ q = q' := by
  refine ⟨And.left, fun hq => ⟨hq, ?_⟩⟩
  have hsum := h.sum
  rw [hq, ← h'.sum] at hsum
  omega

theorem ediv (x : Int) (hy : y ≠ 0) : IsDivision x y (x / y) (x % y) where
  sum := Int.ediv_mul_add_emod x y
  small := by
    have hnonneg := Int.emod_nonneg x hy
    have hlt := Int.emod_lt x hy
    omega

theorem tdiv (x : Int) (hy : y ≠ 0) : IsDivision x y (x.tdiv y) (x.tmod y) where
  sum := Int.tdiv_mul_add_tmod x y
  small := by
    have hmod := Int.natAbs_tmod x y
    have hlt := Nat.mod_lt x.natAbs (Int.natAbs_pos.2 hy)
    omega

theorem fdiv (x : Int) (hy : y ≠ 0) : IsDivision x y (x.fdiv y) (x - x.fdiv y * y) where
  sum := by omega
  small := by
    have hmod : x - x.fdiv y * y = x.fmod y := by rw [Int.fmod_def, Int.mul_comm]
    have hnonneg := Int.emod_nonneg x hy
    have hlt := Int.emod_lt x hy
    rw [hmod, Int.fmod_eq_emod]
    split
    next h => omega
    next h =>
      rw [not_or] at h
      have := mt Int.dvd_of_emod_eq_zero h.2
      omega

end IsDivision

theorem fdiv_eq_ediv_iff (x : Int) {y : Int} (hy : y ≠ 0) : x.fdiv y = x / y ↔ 0 < y ∨ y ∣ x := by
  have hpos : 0 < y ↔ 0 ≤ y := by omega
  rw [Int.fdiv_eq_ediv, hpos]
  split
  next h => simp [h]
  next h =>
    have hne : x / y - 1 ≠ x / y := by omega
    simp [h, hne]

theorem fdiv_eq_tdiv_iff (x : Int) {y : Int} (hy : y ≠ 0) :
    x.fdiv y = x.tdiv y ↔ y ∣ x ∨ x.sign = y.sign := by
  rw [Int.fdiv_eq_tdiv]
  by_cases hdvd : y ∣ x
  · simp [hdvd]
  · have hx : x ≠ 0 := fun h => hdvd (h ▸ Int.dvd_zero y)
    have hone : x.tdiv y - 1 ≠ x.tdiv y := by omega
    -- the division is not exact, so only the signs of the operands count
    rcases Int.lt_or_lt_of_ne hx with hx | hx <;> rcases Int.lt_or_lt_of_ne hy with hy | hy
    · simp [hdvd, Int.not_le.2 hx, Int.not_le.2 hy, Int.sign_eq_neg_one_of_neg hx,
        Int.sign_eq_neg_one_of_neg hy]
    · simp [hdvd, Int.not_le.2 hx, Int.le_of_lt hy, Int.sign_eq_neg_one_of_neg hx,
        Int.sign_eq_one_of_pos hy, hone]
    · simp [hdvd, Int.le_of_lt hx, Int.not_le.2 hy, Int.sign_eq_one_of_pos hx,
        Int.sign_eq_neg_one_of_neg hy, hone]
    · simp [hdvd, Int.le_of_lt hx, Int.le_of_lt hy, Int.sign_eq_one_of_pos hx,
        Int.sign_eq_one_of_pos hy]

/-- What the machine pushes is a quotient with a remainder; it is that of Java exactly for an exact
division or operands of one sign, and that of the terms exactly for an exact division or a positive
divisor. -/
theorem divisions_compared (x y : Int) (hy : y ≠ 0) :
    ∃ q r, Machine.Pushes .div x y q ∧ Machine.Pushes .rem x y r ∧ q * y + r = x ∧
      r.natAbs < y.natAbs ∧
      (q = x.tdiv y ∧ r = x.tmod y ↔ y ∣ x ∨ x.sign = y.sign) ∧
      ∀ t₁ t₂, ∃ u v, Symbolic.Pushes .div t₁ t₂ u ∧ Symbolic.Pushes .rem t₁ t₂ v ∧
        ∀ σ, t₁.intValue? σ = some x → t₂.intValue? σ = some y →
          ∃ q' r', u.intValue? σ = some q' ∧ v.intValue? σ = some r' ∧ q' * y + r' = x ∧ 0 ≤ r' ∧
            r' < y.natAbs ∧
            (q = q' ∧ r = r' ↔ 0 < y ∨ y ∣ x) := by
  have hfloor := IsDivision.fdiv x hy
  refine ⟨_, _, Machine.pushes_of_eval (if_neg hy), Machine.pushes_of_eval (if_neg hy), hfloor.sum,
    hfloor.small, ?_, ?_⟩
  · rw [hfloor.agree_iff (.tdiv x hy), fdiv_eq_tdiv_iff x hy]
  · intro t₁ t₂
    refine ⟨_, _, Symbolic.pushes_of_divides rfl t₁ t₂, Symbolic.pushes_of_divides rfl t₁ t₂,
      fun σ h₁ h₂ => ?_⟩
    have hterm := IsDivision.ediv x hy
    refine ⟨x / y, x % y, ?_, ?_, hterm.sum, Int.emod_nonneg x hy, Int.emod_lt x hy, ?_⟩
    · simp [Symbolic.arithOp, Term.intValue?, h₁, h₂, hy]
    · simp [Symbolic.arithOp, Term.intValue?, h₁, h₂, hy]
    · rw [hfloor.agree_iff hterm, fdiv_eq_ediv_iff x hy]

/-- The three quotients of 7 by -2: the machine has -4, Java and the terms have -3. -/
theorem divisions_compared_seven :
    ∃ q r, Machine.Pushes .div 7 (-2) q ∧ Machine.Pushes .rem 7 (-2) r ∧
      ¬ (q = (7 : Int).tdiv (-2) ∧ r = (7 : Int).tmod (-2)) ∧
      ∃ u v, Symbolic.Pushes .div (.var "x") (.int (-2)) u ∧
        Symbolic.Pushes .rem (.var "x") (.int (-2)) v ∧
        ∃ q' r', u.intValue? ⟨fun _ => 7, fun _ => false⟩ = some q' ∧
          v.intValue? ⟨fun _ => 7, fun _ => false⟩ = some r' ∧ ¬ (q = q' ∧ r = r') := by
  obtain ⟨q, r, hq, hr, -, -, hjava, hterms⟩ := divisions_compared 7 (-2) (by decide)
  obtain ⟨u, v, hu, hv, hvalue⟩ := hterms (.var "x") (.int (-2))
  obtain ⟨q', r', hq', hr', -, -, -, heuclid⟩ := hvalue ⟨fun _ => 7, fun _ => false⟩ rfl rfl
  exact ⟨q, r, hq, hr, mt hjava.1 (by decide), u, v, hu, hv, q', r', hq', hr',
    mt heuclid.1 (by decide)⟩

end Assay
