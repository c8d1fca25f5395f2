import Mathlib.Data.Option.Defs
import Assay.Proofs.Machine.Integer
import Assay.Symbolic.Step
import Assay.Term.Value

/-!
# Terms beside numbers

`Terms` are what a frame of integer code holds when its parameters are variables: a term for each
number. `follow` says what an instruction does to them, and `conditions` what must hold for it to
jump, or not to jump. A symbolic step is a step of the terms, with a successor for each way to go
on. Where the numbers of a frame are the values of terms, the machine goes the one way whose
conditions hold.
-/

namespace Assay

namespace Op

/-- The instructions of integer code without calls and divisions. -/
inductive IsIntegral : Op → Prop
  | push (n : Int) : IsIntegral (.push (.ofInt n))
  | load (i : Whole) : IsIntegral (.load .int i)
  | store (i : Whole) : IsIntegral (.store .int i)
  | dup {w : Whole} (h : w.val = 1) : IsIntegral (.dup w)
  | incr (i a : Whole) : IsIntegral (.incr i a)
  | binary {a : Arith} (h : a.divides = false) : IsIntegral (.binary .int a)
  | compare {c : String} (h : c ∈ conditionWords) (t : Whole) : IsIntegral (.compare c t)
  | compareZero {c : String} (h : c ∈ conditionWords) (t : Whole) : IsIntegral (.compareZero c t)
  | goto (t : Whole) : IsIntegral (.goto t)
  | ret (t : Option Ty) : IsIntegral (.ret t)

theorem IsIntegral.ne_new {op : Op} (h : op.IsIntegral) (owner : Label) : op ≠ .new owner := by
  rintro rfl
  cases h

/-- The ways to go on after an instruction: with a jump, and without. -/
def ways : Op → List Bool
  | .compare .. | .compareZero .. => [true, false]
  | .goto _ => [true]
  | .ret _ => []
  | _ => [false]

end Op

/-- Every instruction found in a method is one of integer code. -/
def Library.IsIntegral (lib : Library) (method : MethodId) : Prop :=
  ∀ o i, Machine.fetch lib ⟨method, o⟩ = .ok i → i.op.IsIntegral

namespace Library.IsIntegral

variable {lib : Library} {p : Place}

theorem op (h : lib.IsIntegral p.method) {i : Instr} (hfetch : Machine.fetch lib p = .ok i) :
    i.op.IsIntegral :=
  h p.offset i hfetch

theorem follow (h : lib.IsIntegral p.method) (op : Op) (jumps : Bool) :
    lib.IsIntegral (p.follow op jumps).method := by
  rwa [Place.method_follow]

end Library.IsIntegral

/-- The terms that stand for the numbers of a frame. -/
structure Terms where
  stack : List Term
  locals : Locals Term

namespace Terms

/-- A variable for each parameter. -/
def ofNames (names : List String) : Terms := ⟨[], .ofList (names.map .var)⟩

/-- What an instruction of integer code does to the terms, if it finds what it needs. -/
def follow : Op → Terms → Option Terms
  | .push v, ⟨st, ls⟩ => v.content.asInt?.map fun n => ⟨.int n :: st, ls⟩
  | .load _ i, ⟨st, ls⟩ => (ls.lookup i.val).map fun t => ⟨t :: st, ls⟩
  | .store _ i, ⟨t :: st, ls⟩ => some ⟨st, ls.set i.val t⟩
  | .dup _, ⟨t :: st, ls⟩ => some ⟨t :: t :: st, ls⟩
  | .incr i a, ⟨st, ls⟩ =>
    (ls.lookup i.val).map fun t => ⟨st, ls.set i.val (.bin .add t (.int a.val))⟩
  | .binary _ a, ⟨y :: x :: st, ls⟩ => some ⟨.bin (Symbolic.arithOp a) x y :: st, ls⟩
  | .compare .., ⟨_ :: _ :: st, ls⟩ => some ⟨st, ls⟩
  | .compareZero .., ⟨_ :: st, ls⟩ => some ⟨st, ls⟩
  | .goto _, ts => some ts
  | _, _ => none

/-- The comparison that a condition word asks for, or the one that holds when it does not. -/
def chosen (condition : String) (jumps : Bool) : Option Term.Op :=
  (Symbolic.comparison? condition).map fun (op, opposite) => if jumps then op else opposite

/-- The conditions under which an instruction jumps, or does not. -/
def conditions (op : Op) (jumps : Bool) (ts : Terms) : List Term :=
  match op, ts.stack with
  | .compare c _, y :: x :: _ => ((chosen c jumps).map fun o => Term.compare o x y).toList
  | .compareZero c _, x :: _ => ((chosen c jumps).map fun o => Term.bin o x (.int 0)).toList
  | _, _ => []

end Terms

namespace Locals

variable {α β : Type} {R : α → β → Prop} {ls : Locals α} {ls' : Locals β}

theorem exists_of_rel_some {x : α} {o : Option β} (h : Option.Rel R (some x) o) :
    ∃ y, o = some y ∧ R x y := by
  cases h with
  | some hxy => exact ⟨_, rfl, hxy⟩

theorem rel_set (h : ∀ i, Option.Rel R (ls.lookup i) (ls'.lookup i)) {x : α} {y : β}
    (hxy : R x y) (j i : Int) :
    Option.Rel R ((ls.set j x).lookup i) ((ls'.set j y).lookup i) := by
  rw [lookup_set, lookup_set]
  by_cases hi : i = j
  · rw [if_pos hi, if_pos hi]
    exact .some hxy
  · rw [if_neg hi, if_neg hi]
    exact h i

end Locals

namespace Symbolic

/-- The contents of a state are these terms. -/
structure State.Shows (s : State) (ts : Terms) : Prop where
  stack : List.Forall₂ (fun c t => Content.toTerm c = .ok t) s.stack ts.stack
  locals : ∀ i,
    Option.Rel (fun c t => Content.toTerm c = .ok t) (s.locals.lookup i) (ts.locals.lookup i)

section Exec

variable {p : Place} {s s' : State} {ts : Terms} {c : Content}

theorem State.Shows.lookup (hs : s.Shows ts) {i : Int} (h : s.locals.lookup i = some c) :
    ∃ t, ts.locals.lookup i = some t ∧ c.toTerm = .ok t := by
  have hi := hs.locals i
  rw [h] at hi
  exact Locals.exists_of_rel_some hi

theorem State.Shows.push (hs : s.Shows ts) {t : Term} (h : c.toTerm = .ok t) :
    (Symbolic.push c s).Shows ⟨t :: ts.stack, ts.locals⟩ :=
  ⟨.cons h hs.stack, hs.locals⟩

theorem State.Shows.set (hs : s.Shows ts) {t : Term} (h : c.toTerm = .ok t) (i : Int) :
    State.Shows { s with locals := s.locals.set i c } ⟨ts.stack, ts.locals.set i t⟩ :=
  ⟨hs.stack, Locals.rel_set hs.locals h i⟩

theorem State.Shows.pop (hs : s.Shows ts) (h : Symbolic.pop s = .ok (c, s')) :
    ∃ t st, ts = ⟨t :: st, ts.locals⟩ ∧ c.toTerm = .ok t ∧ s'.Shows ⟨st, ts.locals⟩ := by
  obtain ⟨locals, stack⟩ := s
  obtain ⟨terms, vars⟩ := ts
  obtain ⟨hstack, hlocals⟩ := hs
  cases hstack with
  | nil => cases h
  | @cons _ t _ st hct hstack =>
    obtain ⟨rfl, rfl⟩ := Prod.mk.inj (Except.ok.inj h)
    exact ⟨t, st, rfl, hct, hstack, hlocals⟩

theorem State.Shows.pop₂ {s₁ s₂ : State} {c₁ c₂ : Content} (hs : s.Shows ts)
    (h₂ : Symbolic.pop s = .ok (c₂, s₂)) (h₁ : Symbolic.pop s₂ = .ok (c₁, s₁)) :
    ∃ t₁ t₂ st, ts = ⟨t₂ :: t₁ :: st, ts.locals⟩ ∧ c₁.toTerm = .ok t₁ ∧ c₂.toTerm = .ok t₂ ∧
      s₁.Shows ⟨st, ts.locals⟩ := by
  obtain ⟨t₂, st₂, hts, hct₂, hs₂⟩ := hs.pop h₂
  obtain ⟨t₁, st, hst, hct₁, hs₁⟩ := hs₂.pop h₁
  obtain rfl := (Terms.mk.inj hst).1
  exact ⟨t₁, t₂, st, hts, hct₁, hct₂, hs₁⟩

theorem State.Shows.peek (hs : s.Shows ts) (h : s.stack.peek = .ok c) :
    ∃ t st, ts = ⟨t :: st, ts.locals⟩ ∧ c.toTerm = .ok t := by
  obtain ⟨locals, stack⟩ := s
  cases stack with
  | nil => cases h
  | cons c' stack =>
    obtain rfl := Except.ok.inj h
    have hpop : Symbolic.pop ⟨locals, c' :: stack⟩ = .ok (c', ⟨locals, stack⟩) := rfl
    obtain ⟨t, st, hts, hct, -⟩ := hs.pop hpop
    exact ⟨t, st, hts, hct⟩

theorem chosen_eq {c : String} {o opposite : Term.Op}
    (h : comparison? c = some (o, opposite)) (j : Bool) :
    Terms.chosen c j = some (if j then o else opposite) := by
  rw [Terms.chosen, h]
  rfl

/-- The successors of an instruction of integer code: one for each way to go on, with its conditions
and all with the same terms. -/
theorem exec_eq {i : Instr} {successors : List Successor} (hop : i.op.IsIntegral) (hs : s.Shows ts)
    (h : exec p s i = .ok successors) :
    ∃ s' ts', ((∃ t, i.op = .ret t) ∨ ts.follow i.op = some ts') ∧ s'.Shows ts' ∧
      successors = i.op.ways.map fun j => ⟨p.follow i.op j, s', ts.conditions i.op j⟩ := by
  obtain ⟨offset, op⟩ := i
  simp only at hop ⊢
  cases hop with
  | push n =>
    obtain rfl := Except.ok.inj h
    exact ⟨_, _, .inr rfl, hs.push (c := .known (.ofInt n)) rfl, rfl⟩
  | load j =>
    simp only [exec, load] at h
    cases hc : s.locals.lookup j.val with
    | none => simp [hc] at h
    | some c =>
      obtain ⟨t, ht, hct⟩ := hs.lookup hc
      rw [hc] at h
      obtain rfl := Except.ok.inj h
      exact ⟨_, _, .inr (congrArg (Option.map _) ht), hs.push hct, rfl⟩
  | store j =>
    obtain ⟨⟨c, s'⟩, hpop, h⟩ := bind_eq_ok.1 h
    obtain ⟨t, st, hts, hct, hs'⟩ := hs.pop hpop
    obtain rfl := Except.ok.inj h
    rw [hts]
    exact ⟨_, _, .inr rfl, hs'.set hct j.val, rfl⟩
  | dup hw =>
    simp only [exec, hw, if_true] at h
    obtain ⟨c, hpeek, h⟩ := bind_eq_ok.1 h
    obtain ⟨t, st, hts, hct⟩ := hs.peek hpeek
    obtain rfl := Except.ok.inj h
    have hpush := hs.push hct
    rw [hts] at hpush ⊢
    exact ⟨_, _, .inr rfl, hpush, rfl⟩
  | incr j a =>
    simp only [exec, increment, Locals.get] at h
    cases hc : s.locals.lookup j.val with
    | none => simp [hc] at h
    | some c =>
      obtain ⟨t, ht, hct⟩ := hs.lookup hc
      simp only [hc, ok_bind, hct] at h
      obtain rfl := Except.ok.inj h
      exact ⟨_, _, .inr (congrArg (Option.map _) ht),
        hs.set (c := .term (.bin .add t (.int a.val))) rfl j.val, rfl⟩
  | @binary a hdiv =>
    obtain ⟨⟨c₂, s₂⟩, hpop₂, h⟩ := bind_eq_ok.1 h
    obtain ⟨⟨c₁, s₁⟩, hpop₁, h⟩ := bind_eq_ok.1 h
    obtain ⟨t₁, t₂, st, hts, hct₁, hct₂, hs₁⟩ := hs.pop₂ hpop₂ hpop₁
    simp only [hct₁, hct₂, ok_bind, hdiv, Bool.false_eq_true, if_false] at h
    obtain rfl := Except.ok.inj h
    rw [hts]
    exact ⟨_, _, .inr rfl, hs₁.push (c := .term (.bin (arithOp a) t₁ t₂)) rfl, rfl⟩
  | @compare c hc t =>
    obtain ⟨⟨c₂, s₂⟩, hpop₂, h⟩ := bind_eq_ok.1 h
    obtain ⟨⟨c₁, s₁⟩, hpop₁, h⟩ := bind_eq_ok.1 h
    obtain ⟨t₁, t₂, st, hts, hct₁, hct₂, hs₁⟩ := hs.pop₂ hpop₂ hpop₁
    simp only [hct₁, hct₂, ok_bind] at h
    cases hcomp : comparison? c with
    | none => simp [hcomp] at h
    | some os =>
      obtain ⟨o, opposite⟩ := os
      rw [hcomp] at h
      obtain rfl := Except.ok.inj h
      rw [hts]
      refine ⟨_, _, .inr rfl, hs₁, ?_⟩
      simp only [Op.ways, Terms.conditions, List.map_cons, List.map_nil, chosen_eq hcomp]
      rfl
  | @compareZero c hc t =>
    obtain ⟨⟨c₁, s₁⟩, hpop, h⟩ := bind_eq_ok.1 h
    obtain ⟨t₁, st, hts, hct, hs₁⟩ := hs.pop hpop
    simp only [hct, ok_bind] at h
    cases hcomp : comparison? c with
    | none => simp [hcomp] at h
    | some os =>
      obtain ⟨o, opposite⟩ := os
      rw [hcomp] at h
      obtain rfl := Except.ok.inj h
      rw [hts]
      refine ⟨_, _, .inr rfl, hs₁, ?_⟩
      simp only [Op.ways, Terms.conditions, List.map_cons, List.map_nil, chosen_eq hcomp]
      rfl
  | goto t =>
    obtain rfl := Except.ok.inj h
    exact ⟨_, _, .inr rfl, hs, rfl⟩
  | ret t =>
    obtain rfl := Except.ok.inj h
    exact ⟨_, _, .inl ⟨t, rfl⟩, hs, rfl⟩

theorem step_eq {lib : Library} {successors : List Successor}
    (hint : lib.IsIntegral p.method) (hs : s.Shows ts)
    (h : step lib p s = .ok successors) :
    ∃ i s' ts', Machine.fetch lib p = .ok i ∧ ((∃ t, i.op = .ret t) ∨ ts.follow i.op = some ts') ∧
      s'.Shows ts' ∧ successors = i.op.ways.map fun j =>
        ⟨p.follow i.op j, s', ts.conditions i.op j⟩ := by
  obtain ⟨i, hfetch, h⟩ := bind_eq_ok.1 h
  obtain ⟨line, -, h⟩ := bind_eq_ok.1 h
  obtain ⟨s', ts', hnext, hs', hsuccs⟩ := exec_eq (hint.op hfetch) hs h
  exact ⟨i, s', ts', hfetch, hnext, hs', hsuccs⟩

end Exec

end Symbolic

namespace Term

variable {σ : Assignment} {o : Op} {a b : Term} {x y : Int} {holds : Bool}

theorem truthValue?_bin (ha : a.intValue? σ = some x) (hb : b.intValue? σ = some y)
    (h : compareInts o x y = some holds) : (bin o a b).truthValue? σ = some holds := by
  cases o <;> simp_all [truthValue?, compareInts]

theorem compareInts_swapped (h : compareInts o x y = some holds) :
    compareInts o.swapped y x = some holds := by
  cases o <;> simp_all [compareInts, Op.swapped, eq_comm]

/-- A comparison holds or not, whichever side is written first. -/
theorem truthValue?_compare (ha : a.intValue? σ = some x) (hb : b.intValue? σ = some y)
    (h : compareInts o x y = some holds) : (compare o a b).truthValue? σ = some holds := by
  rw [compare]
  split
  · exact truthValue?_bin hb ha (compareInts_swapped h)
  · exact truthValue?_bin ha hb h

end Term

namespace Terms

open Machine (Effect compares)

variable {σ : Assignment} {gap : Prop} {ts ts' : Terms} {v : Ints} {op : Op}

/-- The comparison chosen for a jump holds exactly if the jump is made, and the one for no jump
exactly if it is not. -/
theorem compareInts_chosen {c : String} (h : c ∈ Op.conditionWords) (j : Bool) (x y : Int) :
    ∃ o, chosen c j = some o ∧ Term.compareInts o x y = some (decide (j = compares c x y)) := by
  simp only [Op.conditionWords, List.mem_cons, List.not_mem_nil, or_false] at h
  rcases h with rfl | rfl | rfl | rfl | rfl | rfl <;> cases j <;> refine ⟨_, rfl, ?_⟩ <;>
    simp [compares, Term.compareInts]

theorem intValue?_arith {a : Arith} (h : a.divides = false) {tx ty : Term} {x y : Int}
    (hx : tx.intValue? σ = some x) (hy : ty.intValue? σ = some y) :
    ∃ z, a.eval x y = some z ∧ (Term.bin (Symbolic.arithOp a) tx ty).intValue? σ = some z := by
  cases a with
  | div | rem => cases h
  | _ => exact ⟨_, rfl, by simp [Symbolic.arithOp, Term.intValue?, hx, hy]⟩

/-- The numbers are the values of the terms. Where there may be a gap, the variable 0 may be
missing among the numbers. -/
structure HasValues (σ : Assignment) (gap : Prop) (ts : Terms) (v : Ints) : Prop where
  stack : List.Forall₂ (fun t n => t.intValue? σ = some n) ts.stack v.stack
  locals : ∀ i,
    Option.Rel (fun t n => t.intValue? σ = some n) (ts.locals.lookup i) (v.locals.lookup i) ∨
    gap ∧ i = 0 ∧ v.locals.lookup i = none

theorem HasValues.lookup (hv : ts.HasValues σ gap v) {i : Int} {t : Term}
    (h : ts.locals.lookup i = some t) :
    (∃ n, v.locals.lookup i = some n ∧ t.intValue? σ = some n) ∨
      gap ∧ i = 0 ∧ v.locals.lookup 0 = none := by
  rcases hv.locals i with hi | ⟨hgap, rfl, hnone⟩
  · rw [h] at hi
    exact .inl (Locals.exists_of_rel_some hi)
  · exact .inr ⟨hgap, rfl, hnone⟩

theorem HasValues.set (hv : ts.HasValues σ gap v) {t : Term} {n : Int}
    (h : t.intValue? σ = some n) (j : Int) :
    HasValues σ gap ⟨ts.stack, ts.locals.set j t⟩ ⟨v.stack, v.locals.set j n⟩ := by
  refine ⟨hv.stack, fun i => ?_⟩
  simp only [Locals.lookup_set]
  by_cases hi : i = j
  · rw [if_pos hi, if_pos hi]
    exact .inl (.some h)
  · rw [if_neg hi, if_neg hi]
    exact hv.locals i

/-- Where there is one way to go on, without conditions, it is the way taken. -/
theorem only_way {jumps : Bool} (hways : op.ways = [jumps]) (hnone : ∀ j, ts.conditions op j = []) :
    jumps ∈ op.ways ∧
      ∀ j ∈ op.ways, (∀ t ∈ ts.conditions op j, t.truthValue? σ = some true) ↔ j = jumps := by
  simp [hways, hnone]

/-- The machine goes one way, the one whose conditions hold, and keeps the values of the terms. -/
theorem HasValues.step (hv : ts.HasValues σ gap v) (hop : op.IsIntegral)
    (h : ts.follow op = some ts') :
    (∃ jumps w, Effect op v jumps w ∧ ts'.HasValues σ gap w ∧ jumps ∈ op.ways ∧
      ∀ j ∈ op.ways, (∀ t ∈ ts.conditions op j, t.truthValue? σ = some true) ↔ j = jumps) ∨
    gap ∧ op.reads = some 0 ∧ v.locals.lookup 0 = none := by
  obtain ⟨terms, vars⟩ := ts
  obtain ⟨stack, locals⟩ := v
  have hstack := hv.stack
  cases hop with
  | push n =>
    obtain rfl := Option.some.inj h
    exact .inl ⟨_, _, .push n stack locals, ⟨.cons rfl hstack, hv.locals⟩,
      only_way rfl fun _ => rfl⟩
  | load i =>
    obtain ⟨t, ht, rfl⟩ := Option.map_eq_some_iff.1 h
    rcases hv.lookup ht with ⟨n, hn, htn⟩ | ⟨hgap, hi, hnone⟩
    · exact .inl ⟨_, _, .load i stack hn, ⟨.cons htn hstack, hv.locals⟩, only_way rfl fun _ => rfl⟩
    · exact .inr ⟨hgap, congrArg some hi, hnone⟩
  | store i =>
    cases hstack with
    | nil => cases h
    | @cons t n terms stack htn hstack =>
      obtain rfl := Option.some.inj h
      have hrest : HasValues σ gap ⟨terms, vars⟩ ⟨stack, locals⟩ := ⟨hstack, hv.locals⟩
      exact .inl ⟨_, _, .store i n stack locals, hrest.set htn i.val, only_way rfl fun _ => rfl⟩
  | dup hw =>
    cases hstack with
    | nil => cases h
    | @cons t n terms stack htn hstack =>
      obtain rfl := Option.some.inj h
      exact .inl ⟨_, _, .dup hw n stack locals, ⟨.cons htn (.cons htn hstack), hv.locals⟩,
        only_way rfl fun _ => rfl⟩
  | incr i a =>
    obtain ⟨t, ht, rfl⟩ := Option.map_eq_some_iff.1 h
    rcases hv.lookup ht with ⟨n, hn, htn⟩ | ⟨hgap, hi, hnone⟩
    · have hsum : (Term.bin .add t (.int a.val)).intValue? σ = some (n + a.val) := by
        simp [Term.intValue?, htn]
      exact .inl ⟨_, _, .incr i a stack hn, hv.set hsum i.val, only_way rfl fun _ => rfl⟩
    · exact .inr ⟨hgap, congrArg some hi, hnone⟩
  | @binary a hdiv =>
    obtain ⟨⟩ | @⟨ty, y, _, _, hy, ⟨⟩ | @⟨tx, x, terms, stack, hx, hstack⟩⟩ := hstack
    · cases h
    · cases h
    obtain rfl := Option.some.inj h
    obtain ⟨z, hz, hvalue⟩ := intValue?_arith hdiv hx hy
    exact .inl ⟨_, _, .binary stack locals hz, ⟨.cons hvalue hstack, hv.locals⟩,
      only_way rfl fun _ => rfl⟩
  | @compare c hc t =>
    obtain ⟨⟩ | @⟨ty, y, _, _, hy, ⟨⟩ | @⟨tx, x, terms, stack, hx, hstack⟩⟩ := hstack
    · cases h
    · cases h
    obtain rfl := Option.some.inj h
    refine .inl ⟨_, _, .compare hc t x y stack locals, ⟨hstack, hv.locals⟩, by simp [Op.ways],
      fun j _ => ?_⟩
    obtain ⟨o, ho, htruth⟩ := compareInts_chosen hc j x y
    simp [conditions, ho, Term.truthValue?_compare hx hy htruth]
  | @compareZero c hc t =>
    cases hstack with
    | nil => cases h
    | @cons tx x terms stack hx hstack =>
      obtain rfl := Option.some.inj h
      refine .inl ⟨_, _, .compareZero hc t x stack locals, ⟨hstack, hv.locals⟩, by simp [Op.ways],
        fun j _ => ?_⟩
      obtain ⟨o, ho, htruth⟩ := compareInts_chosen hc j x 0
      simp [conditions, ho, Term.truthValue?_bin (b := .int 0) hx rfl htruth]
  | goto t =>
    obtain rfl := Option.some.inj h
    exact .inl ⟨_, _, .goto t stack locals, hv, only_way rfl fun _ => rfl⟩
  | ret t => cases h

end Terms

end Assay
