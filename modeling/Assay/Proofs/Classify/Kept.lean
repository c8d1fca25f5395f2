import Assay.Classify.Run
import Mathlib.Data.List.Forall2

/-!
# What a classification keeps

A classification goes through the assertions of a catalog, and the first fault ends it. Whatever
the oracle, the machine and the flags are, an assertion that has a class keeps it, and nothing but
the labels of the others changes. At the end the time per assertion is averaged over those that had
no class, and that is a fault if there were none.
-/

namespace Assay

/-! ### Passes over a list -/

section Pass

variable {σ α β : Type}

theorem run_bind_apply (x : StateM σ α) (f : α → StateM σ β) (s : σ) :
    (x >>= f) s = f (x s).1 (x s).2 := rfl

/-- A step for each element. The first fault ends the pass; the elements after it stay. -/
def eachUntilFault (step : α → StateM σ (α × Except Fault Unit)) :
    List α → StateM σ (List α × Except Fault Unit)
  | [] => pure ([], .ok ())
  | x :: xs => do
    match ← step x with
    | (y, .error f) => return (y :: xs, .error f)
    | (y, .ok ()) =>
      let (ys, r) ← eachUntilFault step xs
      return (y :: ys, r)

variable {step : α → StateM σ (α × Except Fault Unit)}

theorem eachUntilFault_of_error {x y : α} {xs : List α} {s t : σ} {f : Fault}
    (h : step x s = ((y, .error f), t)) :
    eachUntilFault step (x :: xs) s = ((y :: xs, .error f), t) := by
  rw [eachUntilFault, run_bind_apply, h]
  rfl

theorem eachUntilFault_of_ok {x y : α} {xs : List α} {s t : σ} (h : step x s = ((y, .ok ()), t)) :
    eachUntilFault step (x :: xs) s =
      ((y :: (eachUntilFault step xs t).1.1, (eachUntilFault step xs t).1.2),
        (eachUntilFault step xs t).2) := by
  rw [eachUntilFault, run_bind_apply, h]
  rfl

/-- What every step does to its element, the pass does to the list. -/
theorem forall₂_eachUntilFault {R : α → α → Prop} (hrefl : ∀ x, R x x)
    (hstep : ∀ x s, R x (step x s).1.1) (xs : List α) (s : σ) :
    List.Forall₂ R xs (eachUntilFault step xs s).1.1 := by
  induction xs generalizing s with
  | nil => exact .nil
  | cons x xs ih =>
    have hx := hstep x s
    rcases hs : step x s with ⟨⟨y, r⟩, t⟩
    rw [hs] at hx
    cases r with
    | error f =>
      rw [eachUntilFault_of_error hs]
      exact .cons hx (List.forall₂_same.2 fun z _ => hrefl z)
    | ok u =>
      rw [eachUntilFault_of_ok hs]
      exact .cons hx (ih t)

/-- The fault of a pass is the fault of one of its steps. -/
theorem exists_of_eachUntilFault_error {xs : List α} {s : σ} {f : Fault}
    (h : (eachUntilFault step xs s).1.2 = .error f) : ∃ x ∈ xs, ∃ t, (step x t).1.2 = .error f := by
  induction xs generalizing s with
  | nil => cases h
  | cons x xs ih =>
    rcases hs : step x s with ⟨⟨y, r⟩, t⟩
    cases r with
    | error e =>
      rw [eachUntilFault_of_error hs] at h
      refine ⟨x, List.mem_cons_self, s, ?_⟩
      rw [hs]
      exact h
    | ok u =>
      rw [eachUntilFault_of_ok hs] at h
      obtain ⟨z, hz, hfault⟩ := ih h
      exact ⟨z, List.mem_cons_of_mem x hz, hfault⟩

theorem eachUntilFault_eq_self {xs : List α}
    (h : ∀ x ∈ xs, ∀ s, step x s = ((x, .ok ()), s)) (s : σ) :
    eachUntilFault step xs s = ((xs, .ok ()), s) := by
  induction xs with
  | nil => rfl
  | cons x xs ih =>
    rw [eachUntilFault_of_ok (h x List.mem_cons_self s),
      ih fun z hz => h z (List.mem_cons_of_mem x hz)]

end Pass

/-! ### What stays -/

/-- Only the label may have changed, and only if there was no class. -/
def Assertion.Kept (a b : Assertion) : Prop :=
  b = { a with label := b.label } ∧ (a.label ≠ unclassified → b = a)

def Method.Kept (m n : Method) : Prop :=
  n = { m with assertions := n.assertions } ∧ List.Forall₂ Assertion.Kept m.assertions n.assertions

def Class.Kept (k l : Class) : Prop :=
  l = { k with methods := l.methods } ∧ List.Forall₂ Method.Kept k.methods l.methods

theorem Assertion.kept_self (a : Assertion) : a.Kept a := ⟨rfl, fun _ => rfl⟩

theorem Method.kept_self (m : Method) : m.Kept m :=
  ⟨rfl, List.forall₂_same.2 fun a _ => a.kept_self⟩

theorem Class.kept_self (k : Class) : k.Kept k := ⟨rfl, List.forall₂_same.2 fun m _ => m.kept_self⟩

namespace Catalog

/-- The same classes, methods and assertions stand at the same places, and each assertion that had a
class is as it was. -/
def Kept (c d : Catalog) : Prop := List.Forall₂ Class.Kept c d

/-- Some assertion has no class. -/
def HasUnclassified (c : Catalog) : Prop :=
  ∃ k ∈ c, ∃ m ∈ k.methods, ∃ a ∈ m.assertions, a.label = unclassified

/-! ### Relabelling, as passes over assertions, methods and classes -/

section Relabel

variable {σ : Type}

def relabelOne (label : Assertion → StateM σ (Except Fault String)) (a : Assertion) :
    StateM σ (Assertion × Except Fault Unit) := do
  match ← label a with
  | .error f => return (a, .error f)
  | .ok l => return ({ a with label := l }, .ok ())

def relabelMethod (label : Method → Assertion → StateM σ (Except Fault String)) (m : Method) :
    StateM σ (Method × Except Fault Unit) := do
  let (as, r) ← relabelAssertions (label m) m.assertions
  return ({ m with assertions := as }, r)

def relabelClass (label : Class → Method → Assertion → StateM σ (Except Fault String)) (k : Class) :
    StateM σ (Class × Except Fault Unit) := do
  let (ms, r) ← relabelMethods (label k) k.methods
  return ({ k with methods := ms }, r)

theorem relabelAssertions_eq (label : Assertion → StateM σ (Except Fault String))
    (as : List Assertion) :
    relabelAssertions label as = eachUntilFault (relabelOne label) as := by
  induction as with
  | nil => rfl
  | cons a as ih =>
    rw [relabelAssertions, eachUntilFault, relabelOne, bind_assoc, ih]
    refine bind_congr fun r => ?_
    cases r <;> rfl

theorem relabelMethods_eq (label : Method → Assertion → StateM σ (Except Fault String))
    (ms : List Method) :
    relabelMethods label ms = eachUntilFault (relabelMethod label) ms := by
  induction ms with
  | nil => rfl
  | cons m ms ih =>
    rw [relabelMethods, eachUntilFault, relabelMethod, bind_assoc, ih]
    refine bind_congr fun p => ?_
    obtain ⟨as, _ | _⟩ := p <;> rfl

theorem relabel_eq (label : Class → Method → Assertion → StateM σ (Except Fault String))
    (c : Catalog) :
    c.relabel label = eachUntilFault (relabelClass label) c := by
  induction c with
  | nil => rfl
  | cons k ks ih =>
    rw [relabel, eachUntilFault, relabelClass, bind_assoc, ih]
    refine bind_congr fun p => ?_
    obtain ⟨ms, _ | _⟩ := p <;> rfl

theorem kept_relabelOne {label : Assertion → StateM σ (Except Fault String)}
    (h : ∀ a s l, (label a s).1 = .ok l → a.label ≠ unclassified → l = a.label)
    (a : Assertion) (s : σ) :
    a.Kept (relabelOne label a s).1.1 := by
  have ha := h a s
  rcases hs : label a s with ⟨r, t⟩
  rw [relabelOne, run_bind_apply, hs]
  rw [hs] at ha
  cases r with
  | error f => exact a.kept_self
  | ok l =>
    refine ⟨rfl, fun hclass => ?_⟩
    obtain rfl := ha l rfl hclass
    rfl

variable {label : Class → Method → Assertion → StateM σ (Except Fault String)}

/-- If a class is never taken for another, classified assertions stay, with or without a fault. -/
theorem kept_relabel
    (h : ∀ k m a s l, (label k m a s).1 = .ok l → a.label ≠ unclassified → l = a.label)
    (c : Catalog) (s : σ) : c.Kept (c.relabel label s).1.1 := by
  -- A step of each pass but the innermost is itself a pass.
  rw [relabel_eq]
  refine forall₂_eachUntilFault Class.kept_self (fun k s => ⟨rfl, ?_⟩) c s
  show List.Forall₂ Method.Kept k.methods (relabelMethods (label k) k.methods s).1.1
  rw [relabelMethods_eq]
  refine forall₂_eachUntilFault Method.kept_self (fun m s => ⟨rfl, ?_⟩) k.methods s
  show List.Forall₂ Assertion.Kept m.assertions (relabelAssertions (label k m) m.assertions s).1.1
  rw [relabelAssertions_eq]
  exact forall₂_eachUntilFault Assertion.kept_self (kept_relabelOne (h k m)) m.assertions s

/-- A fault of the relabelling is met at an assertion. -/
theorem exists_of_relabel_error {c : Catalog} {s : σ} {f : Fault}
    (h : (c.relabel label s).1.2 = .error f) :
    ∃ k ∈ c, ∃ m ∈ k.methods, ∃ a ∈ m.assertions, ∃ t, (label k m a t).1 = .error f := by
  rw [relabel_eq] at h
  obtain ⟨k, hk, s, hclass⟩ := exists_of_eachUntilFault_error h
  have hmethods : (relabelMethods (label k) k.methods s).1.2 = .error f := hclass
  rw [relabelMethods_eq] at hmethods
  obtain ⟨m, hm, s, hmethod⟩ := exists_of_eachUntilFault_error hmethods
  have hassertions : (relabelAssertions (label k m) m.assertions s).1.2 = .error f := hmethod
  rw [relabelAssertions_eq] at hassertions
  obtain ⟨a, ha, s, hone⟩ := exists_of_eachUntilFault_error hassertions
  refine ⟨k, hk, m, hm, a, ha, s, ?_⟩
  rw [relabelOne, run_bind_apply] at hone
  rcases hs : label k m a s with ⟨r, t⟩
  rw [hs] at hone
  cases r with
  | error e => exact congrArg Except.error (Except.error.inj hone)
  | ok l => cases hone

/-- Where every assertion gets its own label, nothing changes. -/
theorem relabel_eq_self {c : Catalog}
    (h : ∀ k ∈ c, ∀ m ∈ k.methods, ∀ a ∈ m.assertions, ∀ s, label k m a s = (.ok a.label, s))
    (s : σ) :
    c.relabel label s = ((c, .ok ()), s) := by
  rw [relabel_eq]
  refine eachUntilFault_eq_self (fun k hk s => ?_) s
  rw [relabelClass, run_bind_apply, relabelMethods_eq, eachUntilFault_eq_self fun m hm s => ?_]
  · rfl
  rw [relabelMethod, run_bind_apply, relabelAssertions_eq, eachUntilFault_eq_self fun a ha s => ?_]
  · rfl
  rw [relabelOne, run_bind_apply, h k hk m hm a ha s]
  rfl

end Relabel

end Catalog

/-! ### The classification -/

namespace Classify

variable {g : Setting} {m : Method} {a : Assertion}

/-- Without the solver, or with a class, the label is the one that is there, and nothing is
drawn. -/
theorem label_eq_self (h : a.label ≠ unclassified ∨ g.solver = false) (s : Fuzz.Source) :
    (label g m a).run s = (.ok a.label, s) := by
  have hself : a.label ≠ unclassified ∨ (!g.solver) = true :=
    h.imp id fun hsolver => by simp [hsolver]
  rw [label, if_pos hself]
  rfl

theorem anyUnclassified_iff {c : Catalog} : anyUnclassified c = true ↔ c.HasUnclassified := by
  simp [anyUnclassified, Catalog.HasUnclassified]

/-- The average over no assertions. -/
def noAverage : Fault := ⟨.divisionByZero, "division by zero"⟩

theorem run_eq_of_no_fault {c d : Catalog} {s t : Fuzz.Source}
    (h : c.relabel (fun _ m a => (label g m a).run) s = ((d, .ok ()), t)) :
    run g c s = ((d, if anyUnclassified c then .ok () else .error noAverage), t) := by
  rw [run, run_bind_apply, h]
  cases hany : anyUnclassified c <;> rfl

theorem run_eq_of_fault {c d : Catalog} {s t : Fuzz.Source} {f : Fault}
    (h : c.relabel (fun _ m a => (label g m a).run) s = ((d, .error f), t)) :
    run g c s = ((d, .error f), t) := by
  rw [run, run_bind_apply, h]
  rfl

/-- With nothing to do for any assertion, the average decides. -/
theorem run_eq_self {c : Catalog}
    (h : ∀ k ∈ c, ∀ m ∈ k.methods, ∀ a ∈ m.assertions, a.label ≠ unclassified ∨ g.solver = false)
    (s : Fuzz.Source) :
    run g c s = ((c, if anyUnclassified c then .ok () else .error noAverage), s) :=
  run_eq_of_no_fault <|
    Catalog.relabel_eq_self (fun k hk m hm a ha s => label_eq_self (h k hk m hm a ha) s) s

/-- A catalog without open assertions ends in a fault, whatever the flags are. -/
theorem run_of_classified {c : Catalog} (h : ¬ c.HasUnclassified) (s : Fuzz.Source) :
    run g c s = ((c, .error noAverage), s) := by
  have hany : anyUnclassified c = false :=
    Bool.eq_false_iff.2 fun hany => h (anyUnclassified_iff.1 hany)
  rw [run_eq_self fun k hk m hm a ha => .inl fun hlabel => h ⟨k, hk, m, hm, a, ha, hlabel⟩, hany]
  rfl

/-- A label that cannot be given belongs to an assertion without a class, and the solver is used. -/
theorem open_of_label_error {f : Fault} {s : Fuzz.Source} (h : ((label g m a).run s).1 = .error f) :
    a.label = unclassified ∧ g.solver = true := by
  by_contra hself
  have hcase : a.label ≠ unclassified ∨ g.solver = false := by
    by_cases hlabel : a.label = unclassified
    · exact .inr (Bool.eq_false_iff.2 fun hsolver => hself ⟨hlabel, hsolver⟩)
    · exact .inl hlabel
  rw [label_eq_self hcase] at h
  cases h

theorem kept_run (g : Setting) (c : Catalog) (s : Fuzz.Source) : c.Kept (run g c s).1.1 := by
  have hkept : c.Kept (c.relabel (fun _ m a => (label g m a).run) s).1.1 := by
    refine Catalog.kept_relabel (fun k m a s l hl hclass => ?_) c s
    rw [label_eq_self (.inl hclass)] at hl
    exact (Except.ok.inj hl).symm
  rcases hs : c.relabel (fun _ m a => (label g m a).run) s with ⟨⟨d, r⟩, t⟩
  rw [hs] at hkept
  cases r with
  | error f => rwa [run_eq_of_fault hs]
  | ok u => rwa [run_eq_of_no_fault hs]

/-- A fault is met at an open assertion, or there is none of those. -/
theorem run_error_cases {c : Catalog} {s : Fuzz.Source} {f : Fault}
    (h : (run g c s).1.2 = .error f) :
    ¬ c.HasUnclassified ∧ f = noAverage ∨
      g.solver = true ∧ ∃ k ∈ c, ∃ m ∈ k.methods, ∃ a ∈ m.assertions,
        a.label = unclassified ∧ ∃ t, ((label g m a).run t).1 = .error f := by
  rcases hs : c.relabel (fun _ m a => (label g m a).run) s with ⟨⟨d, r⟩, t⟩
  cases r with
  | error e =>
    rw [run_eq_of_fault hs] at h
    obtain ⟨k, hk, m, hm, a, ha, t, hlabel⟩ :=
      Catalog.exists_of_relabel_error ((congrArg (·.1.2) hs).trans h)
    obtain ⟨hopen, hsolver⟩ := open_of_label_error hlabel
    exact .inr ⟨hsolver, k, hk, m, hm, a, ha, hopen, t, hlabel⟩
  | ok u =>
    rw [run_eq_of_no_fault hs] at h
    split at h
    · cases h
    · rename_i hany
      exact .inl ⟨fun hopen => hany (anyUnclassified_iff.2 hopen), (Except.error.inj h).symm⟩

/-- Classified assertions pass through, and without the solver all of them do; the catalog is not
handed back if every assertion had its class. Any other fault is that of an open assertion. -/
theorem run_passes_classified (g : Setting) (c : Catalog) (s : Fuzz.Source) :
    c.Kept (run g c s).1.1 ∧
      (g.solver = false →
        (run g c s).1.1 = c ∧ (run g c s).2 = s ∧ ((run g c s).1.2 = .ok () ↔ c.HasUnclassified)) ∧
      (¬ c.HasUnclassified → run g c s = ((c, .error ⟨.divisionByZero, "division by zero"⟩), s)) ∧
      ∀ f, (run g c s).1.2 = .error f →
        ¬ c.HasUnclassified ∨ g.solver = true ∧ ∃ k ∈ c, ∃ m ∈ k.methods, ∃ a ∈ m.assertions,
          a.label = unclassified ∧ ∃ t, ((label g m a).run t).1 = .error f := by
  refine ⟨kept_run g c s, fun hsolver => ?_, fun h => run_of_classified h s, fun f h => ?_⟩
  · rw [run_eq_self (fun _ _ _ _ _ _ => .inr hsolver) s, ← anyUnclassified_iff]
    refine ⟨rfl, rfl, ?_⟩
    cases anyUnclassified c <;> simp
  · exact (run_error_cases h).imp And.left id

/-- A method whose one assertion was classified by its form. -/
def settled : Catalog :=
  [⟨"Tank", default, none,
    [⟨"fill", none, .empty, [], [], [⟨.empty, 3, 3, "useless"⟩], false, [], none⟩], none⟩]

/-- Both flags are set; no question is answered and no method runs. -/
def idle : Setting := ⟨Operand.refused, fun _ => .unknown, fun _ _ _ => .error .endless, true, true⟩

theorem settled_catalogs_fail :
    (run idle [] default).1.2 = .error ⟨.divisionByZero, "division by zero"⟩ ∧
      (run idle settled default).1.2 = .error ⟨.divisionByZero, "division by zero"⟩ := by
  have hempty : ¬ Catalog.HasUnclassified [] := by simp [Catalog.HasUnclassified]
  have hsettled : ¬ settled.HasUnclassified := by
    simp [Catalog.HasUnclassified, settled, unclassified]
  rw [run_of_classified hempty, run_of_classified hsettled]
  exact ⟨rfl, rfl⟩

end Classify

end Assay
