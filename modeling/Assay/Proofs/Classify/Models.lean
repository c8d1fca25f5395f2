import Assay.Proofs.Classify.Tautology
import Assay.Proofs.Term.Meaning

/-!
# Enumeration of models

A search for the model with some number asks the oracle again and again, each time with the last
model excluded. `checks` has what it asks. With a sound oracle no two models found agree on all
variables, and the answer belongs to the first check with the model of the last one that had any.
-/

namespace Assay

namespace Model

/-- The model makes the conditions hold, with some choice of what is divided by zero. -/
def Satisfies (m : Model) (ts : List Term) : Prop :=
  ∃ I : Interpretation, I.toAssignment = m.assignment ∧ ∀ t ∈ ts, t.Holds I

def DiffersFrom (m m' : Model) (names : List String) : Prop :=
  ∃ x ∈ names, m.assignment.number x ≠ m'.assignment.number x

theorem assignment_complete (m : Model) (names : List String) :
    (m.complete names).assignment = m.assignment := by
  have hzero : ∀ (xs : List String) x, ((xs.map (·, (0 : Int))).lookup x).getD 0 = 0 := by
    intro xs x
    induction xs with
    | nil => rfl
    | cons y xs ih =>
      rw [List.map_cons, List.lookup_cons]
      split
      · rfl
      · exact ih
  have hnumber : (m.complete names).assignment.number = m.assignment.number := by
    funext x
    show ((m.complete names).numbers.lookup x).getD 0 = (m.numbers.lookup x).getD 0
    rw [complete, List.lookup_append]
    cases m.numbers.lookup x with
    | none => rw [Option.none_or, hzero, Option.getD_none]
    | some n => rfl
  rw [assignment, assignment, Assignment.mk.injEq]
  exact ⟨hnumber, rfl⟩

end Model

/-- A model satisfies the conditions, and where there is said to be none, there is none. -/
structure Oracle.IsSound (oracle : Oracle) : Prop where
  sat : ∀ {ts m}, oracle ts = .sat m → m.Satisfies ts
  unsat : ∀ {ts}, oracle ts = .unsat → ∀ I : Interpretation, ∃ t ∈ ts, ¬ t.Holds I

/-- The oracle that tries some models, one after the other. -/
def Oracle.trying (ms : List Model) : Oracle := fun ts =>
  match ms.find? fun m => ts.all fun t => t.truthValue? m.assignment == some true with
  | some m => .sat m
  | none => .unknown

theorem Oracle.isSound_trying (ms : List Model) : (Oracle.trying ms).IsSound := by
  constructor
  · intro ts m h
    unfold trying at h
    split at h
    next found hfound =>
      obtain rfl := Satisfiable.sat.inj h
      have hfits := List.find?_some hfound
      have hall := List.all_eq_true.1 hfits
      refine ⟨⟨found.assignment, id, id, id⟩, rfl, fun t ht => ?_⟩
      exact (Term.eval_of_value? _ t).2 true (beq_iff_eq.1 (hall t ht))
    next => cases h
  · intro ts h
    unfold trying at h
    split at h <;> cases h

def Satisfiable.model? : Satisfiable → Option Model
  | sat m => some m
  | _ => none

namespace Classify

open Syntax (Expr IsTree condition)

/-- The expression of the assertion translates to the condition. -/
def IsCondition (join : Operand.Join) (assertion : Node) (t : Term) : Prop :=
  ∃ n before after d, expressionOf? assertion = some n ∧
    (condition join n).run before = .ok (d, after) ∧
    Operand.truthOf d = .ok t

/-- The model makes all assertions fail: their conditions, and where these mean the same as the
expressions, those. -/
structure Refutes (join : Operand.Join) (m : Model) (assertions : List Node) : Prop where
  conditions : ∃ I : Interpretation, I.toAssignment = m.assignment ∧
    ∀ a ∈ assertions, ((expressionOf? a).isSome = true → ∃ t, IsCondition join a t) ∧
      ∀ t, IsCondition join a t → ¬ t.Holds I
  expressions : ∀ a ∈ assertions, ∀ n (e : Expr .truth), IsAssertion a n → IsTree n e →
    e.DividesWell m.assignment.number → e.eval m.assignment.number = some false

/-- The conditions of the check after one, if there is any: the model is excluded. -/
def next? (oracle : Oracle) (names : List String) (round : Nat) (ts : List Term) :
    Option (List Term) :=
  match oracle ts, names with
  | .sat m, x :: xs =>
    some (ts ++ (if round % 2 = 0 then positive names else []) ++ [differs m x xs])
  | _, _ => none

/-- The conditions of all checks, from a round on. -/
def checks (oracle : Oracle) (names : List String) : Nat → Nat → List Term → List (List Term)
  | 0, _, _ => []
  | left + 1, round, ts =>
    match next? oracle names round ts with
    | some q => ts :: checks oracle names left (round + 1) q
    | none => [ts]

/-- The models that checks found. -/
def models (oracle : Oracle) (qs : List (List Term)) : List Model :=
  qs.filterMap fun q => (oracle q).model?

/-- The last model found, completed if a check came after it. -/
def lastModel (oracle : Oracle) (names : List String) (qs : List (List Term)) : Option Model :=
  (models oracle qs).getLast?.map fun m => if (models oracle qs).length = qs.length then m
    else m.complete names

section

variable {oracle : Oracle} {names : List String} {ts q : List Term} {m : Model} {left round : Nat}

theorem models_cons_sat (h : oracle ts = .sat m) (qs : List (List Term)) :
    models oracle (ts :: qs) = m :: models oracle qs := by
  simp [models, h, Satisfiable.model?]

theorem models_cons_not_sat (h : (oracle ts).isSat = false) (qs : List (List Term)) :
    models oracle (ts :: qs) = models oracle qs := by
  cases hts : oracle ts with
  | sat m =>
    rw [hts] at h
    cases h
  | _ => simp [models, hts, Satisfiable.model?]

theorem mem_models {qs : List (List Term)} :
    m ∈ models oracle qs ↔ ∃ q ∈ qs, oracle q = .sat m := by
  have hmodel : ∀ answer : Satisfiable, answer.model? = some m ↔ answer = .sat m := by
    intro answer
    cases answer <;> simp [Satisfiable.model?]
  simp only [models, List.mem_filterMap, hmodel]

theorem next?_eq_some :
    next? oracle names round ts = some q ↔ ∃ m x xs, oracle ts = .sat m ∧ names = x :: xs ∧
    q = ts ++ (if round % 2 = 0 then positive names else []) ++ [differs m x xs] := by
  unfold next?
  split
  next m x xs hm =>
    constructor
    · intro h
      exact ⟨m, x, xs, hm, rfl, (Option.some.inj h).symm⟩
    · rintro ⟨m', x', xs', hm', hnames, rfl⟩
      obtain rfl := Satisfiable.sat.inj (hm.symm.trans hm')
      obtain ⟨rfl, rfl⟩ := List.cons.inj hnames
      rfl
  next hnone =>
    refine iff_of_false nofun ?_
    rintro ⟨m, x, xs, hm, hnames, -⟩
    exact hnone m x xs hm hnames

theorem next?_eq_none :
    next? oracle names round ts = none ↔ (oracle ts).isSat = false ∨ names = [] := by
  cases hts : oracle ts with
  | sat m => cases names <;> simp [next?, hts, Satisfiable.isSat]
  | _ => simp [next?, hts, Satisfiable.isSat]

theorem next?_congr {oracle' : Oracle} (h : oracle' ts = oracle ts) :
    next? oracle' names round ts = next? oracle names round ts := by
  unfold next?
  rw [h]

theorem checks_some (h : next? oracle names round ts = some q) :
    checks oracle names (left + 1) round ts = ts :: checks oracle names left (round + 1) q := by
  rw [checks, h]

theorem checks_none (h : next? oracle names round ts = none) :
    checks oracle names (left + 1) round ts = [ts] := by
  rw [checks, h]

theorem head?_checks : (checks oracle names (left + 1) round ts).head? = some ts := by
  cases hnext : next? oracle names round ts with
  | none => rw [checks_none hnext, List.head?_cons]
  | some q => rw [checks_some hnext, List.head?_cons]

theorem mem_of_mem_checks (h : q ∈ checks oracle names left round ts) {t : Term}
    (ht : t ∈ ts) : t ∈ q := by
  fun_induction checks oracle names left round ts with
  | case1 => cases h
  | case2 left round ts ts' hnext ih =>
    rcases List.mem_cons.1 h with rfl | h
    · exact ht
    · obtain ⟨m, x, xs, -, -, rfl⟩ := next?_eq_some.1 hnext
      exact ih h (by simp [ht])
  | case3 left round ts hnext =>
    rw [List.mem_singleton.1 h]
    exact ht

theorem length_checks_le : (checks oracle names left round ts).length ≤ left := by
  fun_induction checks oracle names left round ts with
  | case1 => exact Nat.le_refl 0
  | case2 left round ts ts' hnext ih => exact Nat.succ_le_succ ih
  | case3 left round ts hnext => exact Nat.succ_le_succ (Nat.zero_le left)

/-- Another check comes only after one that found a model. -/
theorem isSat_of_mem_dropLast (h : q ∈ (checks oracle names left round ts).dropLast) :
    (oracle q).isSat = true := by
  fun_induction checks oracle names left round ts with
  | case1 | case3 => cases h
  | case2 left round ts ts' hnext ih =>
    by_cases hqs : checks oracle names left (round + 1) ts' = []
    · rw [hqs] at h
      cases h
    · rw [List.dropLast_cons_of_ne_nil hqs] at h
      rcases List.mem_cons.1 h with rfl | h
      · obtain ⟨m, -, -, hm, -, -⟩ := next?_eq_some.1 hnext
        rw [hm]
        rfl
      · exact ih h

theorem length_checks (hnames : names ≠ [])
    (hsat : ∀ q ∈ checks oracle names left round ts, (oracle q).isSat = true) :
    (checks oracle names left round ts).length = left := by
  fun_induction checks oracle names left round ts with
  | case1 => rfl
  | case2 left round ts ts' hnext ih =>
    rw [List.length_cons, ih fun q hq => hsat q (List.mem_cons_of_mem _ hq)]
  | case3 left round ts hnext =>
    have hts := hsat ts (List.mem_singleton.2 rfl)
    rcases next?_eq_none.1 hnext with h | h
    · rw [hts] at h
      cases h
    · exact absurd h hnames

theorem checks_congr {oracle' : Oracle}
    (h : ∀ q ∈ checks oracle names left round ts, oracle' q = oracle q) :
    checks oracle' names left round ts = checks oracle names left round ts := by
  fun_induction checks oracle names left round ts with
  | case1 => rfl
  | case2 left round ts ts' hnext ih =>
    rw [← next?_congr (h ts List.mem_cons_self)] at hnext
    rw [checks_some hnext, ih fun q hq => h q (List.mem_cons_of_mem _ hq)]
  | case3 left round ts hnext =>
    rw [← next?_congr (h ts List.mem_cons_self)] at hnext
    rw [checks_none hnext]

/-- The models found in checks of which the first found one. -/
theorem models_checks (h : oracle ts = .sat m) :
    ∃ ms, models oracle (checks oracle names (left + 1) round ts) = m :: ms := by
  cases hnext : next? oracle names round ts with
  | none => exact ⟨_, by rw [checks_none hnext, models_cons_sat h]⟩
  | some q => exact ⟨_, by rw [checks_some hnext, models_cons_sat h]⟩

theorem lastModel_cons (h : oracle ts = .sat m) {qs : List (List Term)}
    (hqs : models oracle qs ≠ []) :
    lastModel oracle names (ts :: qs) = lastModel oracle names qs := by
  rw [lastModel, models_cons_sat h, List.getLast?_cons_of_ne_nil hqs, lastModel]
  simp

theorem lastModel_one (h : oracle ts = .sat m) : lastModel oracle names [ts] = some m := by
  rw [lastModel, models_cons_sat h]
  rfl

theorem lastModel_two (h : oracle ts = .sat m) (hq : (oracle q).isSat = false) :
    lastModel oracle names [ts, q] = some (m.complete names) := by
  rw [lastModel, models_cons_sat h, models_cons_not_sat hq]
  rfl

theorem lastModel_append {qs : List (List Term)} {earlier : List Model} {last : Model}
    (h : models oracle qs = earlier ++ [last]) :
    ∃ m, lastModel oracle names qs = some m ∧ (m = last ∨ m = last.complete names) := by
  refine ⟨if (models oracle qs).length = qs.length then last else last.complete names, ?_,
    ite_eq_or_eq _ _ _⟩
  rw [lastModel, h, List.getLast?_concat]
  rfl

theorem lastModel_congr {oracle' : Oracle} {qs : List (List Term)}
    (h : ∀ q ∈ qs, oracle' q = oracle q) :
    lastModel oracle' names qs = lastModel oracle names qs := by
  have hmodels : models oracle' qs = models oracle qs :=
    List.filterMap_congr fun q hq => by rw [h q hq]
  rw [lastModel, lastModel, hmodels]

/-- The search for further models comes to the last one that the checks find. -/
theorem further_eq (h : oracle ts = .sat m) : some (further oracle names left round ts m) =
    lastModel oracle names (checks oracle names (left + 1) round ts) := by
  induction left generalizing round ts m with
  | zero =>
    have hone : checks oracle names 1 round ts = [ts] := by
      cases hnext : next? oracle names round ts with
      | none => exact checks_none hnext
      | some q => exact checks_some hnext
    rw [hone, lastModel_one h, further]
  | succ left ih =>
    cases names with
    | nil => rw [checks_none (next?_eq_none.2 (.inr rfl)), lastModel_one h, further]
    | cons x xs =>
      obtain ⟨q, hq⟩ : ∃ q,
          q = ts ++ (if round % 2 = 0 then positive (x :: xs) else []) ++ [differs m x xs] :=
        ⟨_, rfl⟩
      have hnext : next? oracle (x :: xs) round ts = some q :=
        next?_eq_some.2 ⟨m, x, xs, h, rfl, hq⟩
      rw [checks_some hnext]
      cases hanswer : oracle q with
      | sat m' =>
        obtain ⟨ms, hms⟩ := models_checks hanswer
        rw [lastModel_cons h (hms ▸ List.cons_ne_nil m' ms), ← ih hanswer]
        simp [further, ← hq, hanswer]
      | unsat | unknown =>
        have hstop : (oracle q).isSat = false := by
          rw [hanswer]
          rfl
        rw [checks_none (next?_eq_none.2 (.inl hstop)), lastModel_two h hstop]
        simp [further, ← hq, hanswer]

theorem eq_unsat_of_status (h : (firstAnswer names (oracle ts)).status = .unsat) :
    oracle ts = .unsat := by
  cases hts : oracle ts with
  | unsat => rfl
  | sat m | unknown =>
    rw [hts] at h
    cases h

theorem solve_eq {join : Operand.Join} {assertions : List Node}
    (hrun : (negated join assertions).run [] = .ok (ts, names)) (left : Nat) :
    solve join oracle assertions (left + 1) =
      .ok (some ⟨(firstAnswer names (oracle ts)).status, names,
      lastModel oracle names (checks oracle names (left + 1) 0 ts)⟩) := by
  rw [solve, hrun, ok_bind]
  cases h : oracle ts with
  | sat m =>
    rw [← further_eq h]
    simp [h, firstAnswer]
  | unsat | unknown =>
    have hstop : (oracle ts).isSat = false := by
      rw [h]
      rfl
    rw [checks_none (next?_eq_none.2 (.inl hstop)), lastModel, models_cons_not_sat hstop]
    simp [h, firstAnswer, models]

theorem holds_differs {I : Interpretation} {x : String} {xs : List String} :
    (differs m x xs).Holds I ↔ ∃ y ∈ x :: xs, I.number y ≠ m.assignment.number y := by
  have hfold : ∀ (ys : List String) (t : Term),
      Term.Holds I
          (ys.foldl (fun t y => .bin .or t (.bin .ne (.var y) (.int (m.assignment.number y)))) t) ↔
        t.Holds I ∨ ∃ y ∈ ys, I.number y ≠ m.assignment.number y := by
    intro ys
    induction ys with
    | nil => simp
    | cons y ys ih =>
      intro t
      rw [List.foldl_cons, ih, Term.holds_or, Term.holds_ne_int, or_assoc]
      simp only [List.mem_cons, exists_eq_or_imp]
  refine (hfold xs _).trans ?_
  rw [Term.holds_ne_int]
  simp only [List.mem_cons, exists_eq_or_imp]
  rfl

/-- A model of later conditions differs from one that they exclude. -/
theorem pairwise_models (hsound : oracle.IsSound) :
    (models oracle (checks oracle names left round ts)).Pairwise fun m' m =>
      m.DiffersFrom m' names := by
  fun_induction checks oracle names left round ts with
  | case1 => exact .nil
  | case2 left round ts ts' hnext ih =>
    obtain ⟨m, x, xs, hm, rfl, rfl⟩ := next?_eq_some.1 hnext
    rw [models_cons_sat hm]
    refine .cons (fun m' hm' => ?_) ih
    obtain ⟨q, hq, hanswer⟩ := mem_models.1 hm'
    obtain ⟨I, hI, hall⟩ := hsound.sat hanswer
    have hdiffers :=
      hall _ (mem_of_mem_checks hq (List.mem_append_right _ (List.mem_singleton.2 rfl)))
    rw [holds_differs, hI] at hdiffers
    exact hdiffers
  | case3 left round ts hnext =>
    cases hts : oracle ts <;> simp [models, hts, Satisfiable.model?]

theorem exists_lastModel (hsound : oracle.IsSound) (hsat : (oracle ts).isSat = true) :
    ∃ earlier last m, models oracle (checks oracle names (left + 1) round ts) = earlier ++ [last] ∧
      lastModel oracle names (checks oracle names (left + 1) round ts) = some m ∧
      (m = last ∨ m = last.complete names) ∧ m.Satisfies ts ∧
      ∀ m' ∈ earlier, m.DiffersFrom m' names := by
  obtain ⟨first, hfirst⟩ : ∃ first, oracle ts = .sat first := by
    cases hts : oracle ts with
    | sat first => exact ⟨first, rfl⟩
    | unsat | unknown =>
      rw [hts] at hsat
      cases hsat
  generalize hqs : checks oracle names (left + 1) round ts = qs
  obtain ⟨earlier, last, hms⟩ : ∃ earlier last, models oracle qs = earlier ++ [last] := by
    obtain ⟨later, hlater⟩ := models_checks hfirst
    rw [hqs] at hlater
    exact ⟨_, _, hlater.trans (List.dropLast_append_getLast (List.cons_ne_nil first later)).symm⟩
  obtain ⟨m, hm, hor⟩ := lastModel_append hms
  have hassignment : m.assignment = last.assignment := by
    rcases hor with rfl | rfl
    · rfl
    · exact last.assignment_complete names
  refine ⟨earlier, last, m, hms, hm, hor, ?_, fun m' hm' => ?_⟩
  · obtain ⟨q, hq, hlast⟩ :=
      mem_models.1 (hms ▸ List.mem_append_right earlier (List.mem_singleton.2 rfl))
    obtain ⟨I, hI, hall⟩ := hsound.sat hlast
    rw [← hqs] at hq
    exact ⟨I, hI.trans hassignment.symm, fun t ht => hall t (mem_of_mem_checks hq ht)⟩
  · have hpairs := hqs ▸ pairwise_models hsound
    rw [hms, List.pairwise_append] at hpairs
    rw [Model.DiffersFrom, hassignment]
    exact hpairs.2.2 m' hm' last (List.mem_singleton.2 rfl)

end

section

variable {join : Operand.Join} {assertions : List Node} {names names' : List String}
  {ts : List Term}

theorem IsCondition.expression {a : Node} {t : Term} (h : IsCondition join a t) :
    ∃ n, expressionOf? a = some n := by
  obtain ⟨n, _, _, _, hn, -⟩ := h
  exact ⟨n, hn⟩

theorem IsCondition.unique {a : Node} {t t' : Term} (h : IsCondition join a t)
    (h' : IsCondition join a t') : t = t' := by
  obtain ⟨n, _, _, d, hn, hd, ht⟩ := h
  obtain ⟨n', _, _, d', hn', hd', ht'⟩ := h'
  obtain rfl := Option.some.inj (hn.symm.trans hn')
  obtain rfl := Syntax.condition_unique hd hd'
  exact Except.ok.inj (ht.symm.trans ht')

/-- The conditions are the negated ones of the assertions, none of which fails to be translated. -/
theorem mem_negated (h : (negated join assertions).run names = .ok (ts, names')) :
    (∀ u ∈ ts, ∃ a ∈ assertions, ∃ t, IsCondition join a t ∧ u = .not t) ∧
      ∀ a ∈ assertions, ∀ n, expressionOf? a = some n → ∃ t, IsCondition join a t ∧
        .not t ∈ ts := by
  induction assertions generalizing names ts with
  | nil =>
    obtain ⟨rfl, -⟩ := Prod.mk.inj (Except.ok.inj h)
    exact ⟨nofun, nofun⟩
  | cons b bs ih =>
    rw [negated] at h
    cases hb : expressionOf? b with
    | none =>
      rw [hb] at h
      obtain ⟨hmem, hall⟩ := ih h
      refine ⟨fun u hu => ?_, fun a ha n hn => ?_⟩
      · obtain ⟨a, ha, hu⟩ := hmem u hu
        exact ⟨a, List.mem_cons_of_mem _ ha, hu⟩
      · rcases List.mem_cons.1 ha with rfl | ha
        · rw [hn] at hb
          cases hb
        · exact hall a ha n hn
    | some e =>
      rw [hb] at h
      simp only [Syntax.run_bind_eq_ok, Syntax.run_liftM_eq_ok] at h
      obtain ⟨d, middle, hd, t, _, ⟨ht, rfl⟩, us, last, hus, hts⟩ := h
      obtain ⟨rfl, rfl⟩ := Prod.mk.inj (Except.ok.inj hts)
      have hcondition : IsCondition join b t := ⟨e, names, _, d, hb, hd, ht⟩
      obtain ⟨hmem, hall⟩ := ih hus
      refine ⟨fun u hu => ?_, fun a ha n hn => ?_⟩
      · rcases List.mem_cons.1 hu with rfl | hu
        · exact ⟨b, List.mem_cons_self, t, hcondition, rfl⟩
        · obtain ⟨a, ha, hu⟩ := hmem u hu
          exact ⟨a, List.mem_cons_of_mem _ ha, hu⟩
      · rcases List.mem_cons.1 ha with rfl | ha
        · exact ⟨t, hcondition, List.mem_cons_self⟩
        · obtain ⟨u, hu, hmem⟩ := hall a ha n hn
          exact ⟨u, hu, List.mem_cons_of_mem _ hmem⟩

/-- The negated assertions hold exactly where every assertion fails. -/
theorem holds_negated_iff (h : (negated join assertions).run names = .ok (ts, names'))
    {I : Interpretation} :
    (∀ u ∈ ts, u.Holds I) ↔ ∀ a ∈ assertions, ∀ t, IsCondition join a t → ¬ t.Holds I := by
  obtain ⟨hmem, hall⟩ := mem_negated h
  constructor
  · intro hholds a ha t ht
    obtain ⟨n, hn⟩ := ht.expression
    obtain ⟨t', ht', hin⟩ := hall a ha n hn
    rw [ht.unique ht']
    exact Term.holds_not.1 (hholds _ hin)
  · intro hfails u hu
    obtain ⟨a, ha, t, ht, rfl⟩ := hmem u hu
    exact Term.holds_not.2 (hfails a ha t ht)

theorem Refutes.of_satisfies (hjoin : Syntax.JoinsTruths join)
    (h : (negated join assertions).run names = .ok (ts, names')) {m : Model} (hm : m.Satisfies ts) :
    Refutes join m assertions := by
  obtain ⟨I, hI, hholds⟩ := hm
  have hfails := (holds_negated_iff h).1 hholds
  refine ⟨⟨I, hI, fun a ha => ⟨fun hsome => ?_, hfails a ha⟩⟩,
    fun a ha n e hstatement htree hdiv => ?_⟩
  · obtain ⟨n, hn⟩ := Option.isSome_iff_exists.1 hsome
    obtain ⟨t, ht, -⟩ := (mem_negated h).2 a ha n hn
    exact ⟨t, ht⟩
  have hn := hstatement.expressionOf? htree
  obtain ⟨t, hcondition, -⟩ := (mem_negated h).2 a ha n hn
  have hnot := hfails a ha t hcondition
  obtain ⟨n', _, _, d, hn', hd, ht⟩ := hcondition
  obtain rfl := Option.some.inj (hn.symm.trans hn')
  obtain ⟨p, hp, hstands⟩ := (htree.translates hjoin hdiv hd).value
  have hvalue := Syntax.truthValue?_truthOf hstands ht
  rw [← hI] at hvalue
  have heval := (Term.eval_of_value? I t).2 p hvalue
  cases p with
  | false => exact hp
  | true => exact absurd heval hnot

end

/-- With a sound oracle the search answers as its first check does. If there is a model, it has the
last one found, which makes all assertions fail and differs from every other. All checks are made
unless one finds no model or there are no variables, and nothing else of the oracle matters. -/
theorem solve_enumerates_models (join : Operand.Join) (hjoin : Syntax.JoinsTruths join)
    (oracle : Oracle) (hsound : oracle.IsSound) (assertions : List Node) {ts : List Term}
    {names : List String} (hrun : (negated join assertions).run [] = .ok (ts, names))
    {attempts : Nat} (hpos : 1 ≤ attempts) {qs : List (List Term)}
    (hqs : checks oracle names attempts 0 ts = qs) :
    (∃ r, solve join oracle assertions attempts = .ok (some r) ∧ r.names = names ∧
      r.status = (firstAnswer names (oracle ts)).status ∧
      (r.status = .unsat →
        ∀ I : Interpretation, ∃ a ∈ assertions, ∃ t, IsCondition join a t ∧ t.Holds I) ∧
      ((oracle ts).isSat = false → r.model = none) ∧
      ((oracle ts).isSat = true → ∃ earlier last m, models oracle qs = earlier ++ [last] ∧
        r.model = some m ∧
        (m = last ∨ m = last.complete names) ∧ Refutes join m assertions ∧
        ∀ m' ∈ earlier, m.DiffersFrom m' names)) ∧
    ((models oracle qs).Pairwise fun m' m => m.DiffersFrom m' names) ∧
    (qs.head? = some ts ∧ qs.length ≤ attempts ∧ (∀ q ∈ qs.dropLast, (oracle q).isSat = true) ∧
      (names ≠ [] → (∀ q ∈ qs, (oracle q).isSat = true) → qs.length = attempts)) ∧
    ∀ oracle' : Oracle, (∀ q ∈ qs, oracle' q = oracle q) →
      solve join oracle' assertions attempts = solve join oracle assertions attempts := by
  obtain ⟨left, rfl⟩ := Nat.exists_eq_add_of_le' hpos
  subst hqs
  refine ⟨⟨_, solve_eq hrun left, rfl, rfl, fun hunsat I => ?_, fun hstop => ?_, fun hsat => ?_⟩,
    pairwise_models hsound, ⟨?_, length_checks_le, fun q => isSat_of_mem_dropLast, length_checks⟩,
    fun oracle' h => ?_⟩
  · by_contra hnone
    obtain ⟨u, hu, hnot⟩ := hsound.unsat (eq_unsat_of_status hunsat) I
    refine hnot ((holds_negated_iff hrun).2 (fun a ha t ht hholds => ?_) u hu)
    exact hnone ⟨a, ha, t, ht, hholds⟩
  · rw [checks_none (next?_eq_none.2 (.inl hstop)), lastModel, models_cons_not_sat hstop]
    rfl
  · obtain ⟨earlier, last, m, hms, hm, hor, hsatisfies, hdiffers⟩ := exists_lastModel hsound hsat
    exact ⟨earlier, last, m, hms, hm, hor, .of_satisfies hjoin hrun hsatisfies, hdiffers⟩
  · exact head?_checks
  · have hts : oracle' ts = oracle ts := h ts (List.mem_of_mem_head? head?_checks)
    rw [solve_eq hrun, solve_eq hrun, hts, checks_congr h, lastModel_congr h]

section Below

def belowNode : Node :=
  Syntax.branch "binary_expression" [
    Syntax.leaf "identifier" "x", Syntax.leaf "<" "<", Syntax.leaf "method_invocation" "get()"]

/-- The tree of `assert x < get();`. -/
def belowTree : Node :=
  Syntax.branch "assert_statement" [Syntax.leaf "assert" "assert", belowNode, Syntax.leaf ";" ";"]

theorem negated_below (join : Operand.Join) :
    (negated join [belowTree]).run [] =
      .ok ([.not (.bin .lt (.var "x") (.var "get()"))], ["x", "get()"]) := by
  have hstatement : IsAssertion belowTree belowNode := ⟨rfl, _, _, rfl, rfl⟩
  have htree : IsTree belowNode (.order .lt (.name "x") (.name "get()")) :=
    .order ⟨rfl, _, rfl, rfl⟩ (.name (.inl rfl)) (.name (.inr rfl))
  have hcondition : (condition join belowNode).run [] =
      .ok (.term (.bin .lt (.var "x") (.var "get()")), ["x", "get()"]) :=
    (Syntax.run_binary ⟨rfl, _, rfl, rfl⟩).2 ⟨_, _, _, (condition_x _ _).trans rfl,
      (condition_get _ _).trans rfl, rfl⟩
  exact (hstatement.run_negated htree).2 ⟨_, _, hcondition, rfl, rfl⟩

def belowModel (x y : Int) : Model := ⟨[("x", x), ("get()", y)], []⟩

def belowModels : List Model := [belowModel 0 0, belowModel 1 1, belowModel 2 1]

/-- The third model is not the first one again, nor the second. -/
theorem solve_enumerates_below :
    (Oracle.trying belowModels).IsSound ∧
      ∃ r, solve Operand.refused (.trying belowModels) [belowTree] 3 = .ok (some r) ∧
        r.status = .sat ∧
        r.model = some (belowModel 2 1) ∧ Refutes Operand.refused (belowModel 2 1) [belowTree] := by
  have hsound : (Oracle.trying belowModels).IsSound := Oracle.isSound_trying belowModels
  obtain ⟨⟨r, hr, -, hstatus, -, -, hmodel⟩, -⟩ := solve_enumerates_models Operand.refused
    Syntax.joinsTruths_refused (.trying belowModels) hsound [belowTree] (negated_below _)
      (show 1 ≤ 3 by decide) rfl
  obtain ⟨earlier, last, m, hms, hm, hor, hrefutes, -⟩ := hmodel rfl
  have hlast : some (belowModel 2 1) = some last :=
    (congrArg List.getLast? hms).trans List.getLast?_concat
  obtain rfl := Option.some.inj hlast
  -- the model has a value for both names, and completing it adds none
  have hsame : m = belowModel 2 1 := hor.elim id id
  rw [hsame] at hm hrefutes
  exact ⟨hsound, r, hr, hstatus, hm, hrefutes⟩

end Below

end Classify

end Assay
