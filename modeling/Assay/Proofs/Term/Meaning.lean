import Assay.Term.Value

/-!
# Meanings of terms

A term has a value under every interpretation: quotients and remainders by zero are chosen along
with the variables. Where a term has a value without such a choice, that is its value under all of
them.
-/

namespace Assay

/-- Values for the variables, and for what is divided by zero. -/
structure Interpretation extends Assignment where
  quotient : Int → Int
  remainder : Int → Int
  ratio : Rat → Rat

/-- The value of a term. -/
inductive Val where
  | int (n : Int)
  | rat (q : Rat)
  | bool (b : Bool)
  deriving DecidableEq

namespace Val

def isTrue : Val → Bool
  | bool b => b
  | _ => false

def toRat : Val → Rat
  | int n => n
  | rat q => q
  | bool _ => 0

def toInt : Val → Int
  | int n => n
  | rat q => q.floor
  | bool _ => 0

def same : Val → Val → Bool
  | bool p, bool q => p = q
  | v, w => v.toRat = w.toRat

/-- Arithmetic that stays among the whole numbers. -/
def arith (whole : Int → Int → Int) (fraction : Rat → Rat → Rat) : Val → Val → Val
  | int x, int y => int (whole x y)
  | v, w => rat (fraction v.toRat w.toRat)

theorem isTrue_iff {v : Val} : v.isTrue = true ↔ v = bool true := by
  cases v <;> simp [isTrue]

end Val

namespace Interpretation

def apply (I : Interpretation) : Term.Op → Val → Val → Val
  | .add => Val.arith (· + ·) (· + ·)
  | .sub => Val.arith (· - ·) (· - ·)
  | .mul => Val.arith (· * ·) (· * ·)
  | .div => fun v w => .int (if w.toInt = 0 then I.quotient v.toInt else v.toInt / w.toInt)
  | .mod => fun v w => .int (if w.toInt = 0 then I.remainder v.toInt else v.toInt % w.toInt)
  | .ratio => fun v w => .rat (if w.toRat = 0 then I.ratio v.toRat else v.toRat / w.toRat)
  | .eq => fun v w => .bool (v.same w)
  | .ne => fun v w => .bool (!v.same w)
  | .lt => fun v w => .bool (v.toRat < w.toRat)
  | .le => fun v w => .bool (v.toRat ≤ w.toRat)
  | .gt => fun v w => .bool (w.toRat < v.toRat)
  | .ge => fun v w => .bool (w.toRat ≤ v.toRat)
  | .and => fun v w => .bool (v.isTrue && w.isTrue)
  | .or => fun v w => .bool (v.isTrue || w.isTrue)

theorem apply_compareInts (I : Interpretation) {op : Term.Op} {x y : Int} {p : Bool}
    (h : Term.compareInts op x y = some p) : I.apply op (.int x) (.int y) = .bool p := by
  cases op with
  | eq | ne =>
    obtain rfl := Option.some.inj h
    simp [apply, Val.same, Val.toRat]
  | lt | gt =>
    obtain rfl := Option.some.inj h
    simp only [apply, Val.toRat, Rat.intCast_lt_intCast]
  | le | ge =>
    obtain rfl := Option.some.inj h
    simp only [apply, Val.toRat, Rat.intCast_le_intCast]
  | _ => cases h

end Interpretation

namespace Term

def eval (I : Interpretation) : Term → Val
  | int n => .int n
  | real num den => .rat (mkRat num den)
  | truth b => .bool b
  | var x => .int (I.number x)
  | flag x => .bool (I.truth x)
  | bin op a b => I.apply op (a.eval I) (b.eval I)
  | not a => .bool (!(a.eval I).isTrue)
  | toReal a => .rat (a.eval I).toRat
  | choice c a b => if (c.eval I).isTrue then a.eval I else b.eval I

def Holds (I : Interpretation) (t : Term) : Prop := t.eval I = .bool true

section

variable {I : Interpretation} {a b t : Term}

theorem holds_not : Holds I (.not t) ↔ ¬ Holds I t := by
  rw [Holds, Holds, eval, ← Val.isTrue_iff, ← Val.isTrue_iff]
  simp [Val.isTrue]

theorem holds_or : Holds I (.bin .or a b) ↔ Holds I a ∨ Holds I b := by
  rw [Holds, Holds, Holds, eval, ← Val.isTrue_iff, ← Val.isTrue_iff, ← Val.isTrue_iff]
  simp [Interpretation.apply, Val.isTrue]

theorem holds_ne_int {x : String} {n : Int} :
    Holds I (.bin .ne (.var x) (.int n)) ↔ I.number x ≠ n := by
  simp [Holds, eval, Interpretation.apply, Val.same, Val.toRat]

/-- The truth value of a comparison, of numbers or of truth values. -/
theorem truthValue?_bin_eq_some {σ : Assignment} {op : Op} {p : Bool} (hand : op ≠ .and)
    (hor : op ≠ .or) (h : (bin op a b).truthValue? σ = some p) :
    (∃ x y, a.intValue? σ = some x ∧ b.intValue? σ = some y ∧ compareInts op x y = some p) ∨
      ∃ q r, a.truthValue? σ = some q ∧ b.truthValue? σ = some r ∧
        (op = .eq ∧ p = decide (q = r) ∨ op = .ne ∧ p = decide (q ≠ r)) := by
  unfold truthValue? at h
  split at h
  case h_4 heq => exact absurd (bin.inj heq).1 hand
  case h_5 heq => exact absurd (bin.inj heq).1 hor
  case h_6 heq =>
    obtain ⟨rfl, rfl, rfl⟩ := bin.inj heq
    split at h
    next x y hx hy => exact .inl ⟨x, y, hx, hy, h⟩
    next =>
      right
      split at h
      next hq hr _ _ => exact ⟨_, _, hq, hr, .inl ⟨rfl, (Option.some.inj h).symm⟩⟩
      next hq hr _ _ => exact ⟨_, _, hq, hr, .inr ⟨rfl, (Option.some.inj h).symm⟩⟩
      next => cases h
  all_goals contradiction

theorem intValue?_bin_eq_some {σ : Assignment} {op : Op} {n : Int}
    (h : (bin op a b).intValue? σ = some n) :
    ∃ x y, a.intValue? σ = some x ∧ b.intValue? σ = some y ∧
      ∀ I : Interpretation, I.apply op (.int x) (.int y) = .int n := by
  cases op with
  | add | sub | mul =>
    simp only [intValue?, Option.bind_eq_bind, Option.bind_eq_some_iff, Option.pure_def] at h
    obtain ⟨x, hx, y, hy, h⟩ := h
    obtain rfl := Option.some.inj h
    exact ⟨x, y, hx, hy, fun _ => rfl⟩
  | div | mod =>
    simp only [intValue?, Option.bind_eq_bind, Option.bind_eq_some_iff] at h
    obtain ⟨y, hy, h⟩ := h
    split at h
    next => cases h
    next hne =>
      simp only [Option.bind_eq_some_iff, Option.pure_def] at h
      obtain ⟨x, hx, h⟩ := h
      obtain rfl := Option.some.inj h
      exact ⟨x, y, hx, hy, fun I => by simp [Interpretation.apply, Val.toInt, hne]⟩
  | _ => cases h

end

/-- A value that needs no choice is the value under every interpretation. -/
theorem eval_of_value? (I : Interpretation) (t : Term) :
    (∀ n, t.intValue? I.toAssignment = some n → t.eval I = .int n) ∧
      ∀ p, t.truthValue? I.toAssignment = some p → t.eval I = .bool p := by
  induction t with
  | int n => exact ⟨fun _ h => congrArg Val.int (Option.some.inj h), nofun⟩
  | var x => exact ⟨fun _ h => congrArg Val.int (Option.some.inj h), nofun⟩
  | truth b => exact ⟨nofun, fun _ h => congrArg Val.bool (Option.some.inj h)⟩
  | flag x => exact ⟨nofun, fun _ h => congrArg Val.bool (Option.some.inj h)⟩
  | real | toReal a ih => exact ⟨nofun, nofun⟩
  | not a ih =>
    refine ⟨nofun, fun p h => ?_⟩
    simp only [truthValue?, Option.bind_eq_bind, Option.bind_eq_some_iff, Option.pure_def] at h
    obtain ⟨q, hq, h⟩ := h
    obtain rfl := Option.some.inj h
    rw [eval, ih.2 q hq, Val.isTrue]
  | choice c a b ihc iha ihb =>
    refine ⟨fun n h => ?_, nofun⟩
    simp only [intValue?, Option.bind_eq_bind, Option.bind_eq_some_iff] at h
    obtain ⟨q, hq, h⟩ := h
    rw [eval, ihc.2 q hq, Val.isTrue]
    cases q with
    | false => exact ihb.1 n h
    | true => exact iha.1 n h
  | bin op a b iha ihb =>
    refine ⟨fun n h => ?_, fun p h => ?_⟩
    · obtain ⟨x, y, hx, hy, hn⟩ := intValue?_bin_eq_some h
      rw [eval, iha.1 x hx, ihb.1 y hy, hn]
    · by_cases hop : op = .and ∨ op = .or
      · rcases hop with rfl | rfl
        all_goals
          simp only [truthValue?, Option.bind_eq_bind, Option.bind_eq_some_iff,
            Option.pure_def] at h
          obtain ⟨q, hq, r, hr, h⟩ := h
          obtain rfl := Option.some.inj h
          rw [eval, iha.2 q hq, ihb.2 r hr]
          rfl
      · rw [not_or] at hop
        rcases truthValue?_bin_eq_some hop.1 hop.2 h with ⟨x, y, hx, hy, hp⟩ | ⟨q, r, hq, hr, hp⟩
        · rw [eval, iha.1 x hx, ihb.1 y hy, I.apply_compareInts hp]
        · rw [eval, iha.2 q hq, ihb.2 r hr]
          rcases hp with ⟨rfl, rfl⟩ | ⟨rfl, rfl⟩
          · rfl
          · simp [Interpretation.apply, Val.same]

end Term

end Assay
