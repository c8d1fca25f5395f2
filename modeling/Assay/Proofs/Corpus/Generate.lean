import Mathlib.Data.List.GetD
import Assay.Proofs.Corpus.Lines

/-!
# Inputs that take the branches

The input of a branch has the numbers of a model, one for each parameter that the branch mentions
and in the order of these, and then zeros. So the branch holds if the values are bound to its
parameters in this way, and a value belongs to the parameter at its own place only if the branch
mentions all before it.
-/

namespace Assay

/-- What is asked of an oracle: its models satisfy the terms, and it has one if there is one. -/
structure Oracle.Solves (oracle : Oracle) (ts : List Term) : Prop where
  sound : ∀ m, oracle ts = .sat m → ∀ t ∈ ts, t.truthValue? m.assignment = some true
  complete : ∀ σ : Assignment, (∀ t ∈ ts, t.truthValue? σ = some true) → ∃ m, oracle ts = .sat m

namespace Corpus

variable {oracle : Oracle} {m : Model} {b : Branch} {n : Nat} {texts : List String} {ts : List Term}

namespace Branch

/-- The model has a number for each parameter that the branch mentions, and none is too long. -/
def HasValues (b : Branch) (m : Model) : Prop :=
  ∀ i ∈ b.params, ∃ v, m.numbers.lookup (parameterName i) = some v ∧ Text.isWritable v = true

/-- A model of the branch leaves no parameter out that the branch mentions. -/
def IsValued (b : Branch) (oracle : Oracle) : Prop :=
  ∀ ts m, b.terms = .ok ts → oracle ts = .sat m → b.HasValues m

/-- The input that a model gives. -/
def solution (b : Branch) (n : Nat) (m : Model) : List Int :=
  b.params.map (numbersOf m.assignment) ++ List.replicate (n - b.params.length) 0

/-- The inputs for a branch: none or one. -/
def inputs (oracle : Oracle) (n : Nat) (b : Branch) : List (List Int) :=
  match b.terms with
  | .error _ => []
  | .ok ts =>
    match oracle ts with
    | .sat m => if b.status = "SAT" ∧ 0 < n then [b.solution n m] else []
    | _ => []

theorem mem_inputs {values : List Int} : values ∈ b.inputs oracle n ↔
    (b.status = "SAT" ∧ 0 < n) ∧ ∃ ts m, b.terms = .ok ts ∧ oracle ts = .sat m ∧
    values = b.solution n m := by
  unfold inputs
  cases hts : b.terms with
  | error e => simp
  | ok ts =>
    cases hm : oracle ts with
    | sat m =>
      by_cases h : b.status = "SAT" ∧ 0 < n
      · simp [h, hm]
      · simp [h, hm]
    | unsat => simp [hm]
    | unknown => simp [hm]

theorem length_params_le (hover : b.IsOver n) : b.params.length ≤ n := by
  have hsub : b.params ⊆ List.range n := fun i hi => List.mem_range.2 (hover.params i hi)
  simpa using (List.subperm_of_subset (b.pairwise_params.imp Nat.ne_of_lt) hsub).length_le

theorem length_solution (hover : b.IsOver n) (m : Model) : (b.solution n m).length = n := by
  have hle := length_params_le hover
  rw [solution, List.length_append, List.length_map, List.length_replicate]
  omega

/-- The values are bound to the parameters that they were found for. -/
theorem bound_solution {i : Nat} (hi : i ∈ b.params) :
    b.bound (b.solution n m) i = numbersOf m.assignment i := by
  have hlt := List.idxOf_lt_length_of_mem hi
  rw [bound, solution, List.getD_append _ _ _ _ (by simpa using hlt),
    List.getD_eq_getElem _ _ (by simpa using hlt), List.getElem_map, List.getElem_idxOf]

theorem bound_of_isGapless (h : b.IsGapless) {i : Nat} (hi : i ∈ b.params) (values : List Int) :
    b.bound values i = values.getD i 0 := by
  unfold IsGapless at h
  generalize b.params.length = k at h
  rw [h] at hi
  have hidx := List.nodup_range.idxOf_getElem i (by simpa using hi)
  rw [List.getElem_range] at hidx
  rw [bound, h, hidx]

end Branch

section Solving

theorem zip_replicate {α β : Type} {xs : List α} (a : β) (h : xs.length ≤ n) :
    xs.zip (List.replicate n a) = xs.map fun x => (x, a) := by
  induction xs generalizing n with
  | nil => rfl
  | cons x xs ih =>
    obtain ⟨n, rfl⟩ : ∃ k, n = k + 1 := ⟨n - 1, by rw [List.length_cons] at h; omega⟩
    rw [List.replicate_succ, List.zip_cons_cons, ih (by simpa using h), List.map_cons]

theorem mapM_variableFor (is : List Nat) :
    ((is.map parameterName).map fun x => (x, 'I')).mapM
      (fun x => do return (x.1, ← variableFor x.1 x.2)) = .ok (scope is) := by
  induction is with
  | nil => rfl
  | cons i is ih =>
    rw [List.map_cons, List.map_cons, List.mapM_cons, ih]
    rfl

theorem valueIn_eq_ok {x : String} {v : Int} (hx : m.numbers.lookup x = some v)
    (hv : Text.isWritable v = true) :
    valueIn m x 'I' = .ok (.int v) := by
  simp [valueIn, hx, hv]

theorem valueIn_eq_error {x : String}
    (h : ¬ ∃ v, m.numbers.lookup x = some v ∧ Text.isWritable v = true) :
    ∃ e, valueIn m x 'I' = .error e := by
  cases hx : m.numbers.lookup x with
  | none => exact ⟨_, by rw [valueIn, if_neg (by decide), hx]⟩
  | some v =>
    have hv : Text.isWritable v = false := by
      rw [← Bool.not_eq_true]
      exact fun hv => h ⟨v, hx, hv⟩
    exact ⟨Text.unreadable (Nat.toDigits 10 v.natAbs).length, by simp [valueIn, hx, hv]⟩

theorem mapM_valueIn {is : List Nat}
    (h : ∀ i ∈ is, ∃ v, m.numbers.lookup (parameterName i) = some v ∧ Text.isWritable v = true) :
    ((is.map parameterName).map fun x => (x, 'I')).mapM (fun x => valueIn m x.1 x.2) =
      .ok ((is.map (numbersOf m.assignment)).map Datum.int) := by
  rw [mapM_eq_ok, List.map_map, List.map_map, List.forall₂_map_left_iff, List.forall₂_map_right_iff,
    List.forall₂_same]
  intro i hi
  obtain ⟨v, hx, hv⟩ := h i hi
  have hnumber : numbersOf m.assignment i = v := by simp [numbersOf, Model.assignment, hx]
  simpa [hnumber] using valueIn_eq_ok hx hv

theorem mapM_padding (k : Nat) :
    (List.replicate k 'I').mapM padding = .ok ((List.replicate k (0 : Int)).map Datum.int) := by
  induction k with
  | zero => rfl
  | succ k ih => simp [List.replicate_succ, List.mapM_cons, ih, padding]

/-- The names of a branch, each with the letter of its parameter. -/
theorem zip_mentioned (hover : b.IsOver n) (h : AreTexts texts b.conditions) :
    (mentioned texts).zip (List.replicate n 'I') = (b.params.map parameterName).map fun x =>
      (x, 'I') := by
  rw [b.mentioned_eq h]
  exact zip_replicate 'I' (by simpa using b.length_params_le hover)

/-- The model of a branch is read out, parameter by parameter. -/
theorem solveBranch_eq (hover : b.IsOver n) (h : AreTexts texts b.conditions)
    (hts : b.terms = .ok ts) (hm : oracle ts = .sat m) :
    solveBranch oracle texts (List.replicate n 'I') = do
      let values ← ((b.params.map parameterName).map fun x => (x, 'I')).mapM fun x =>
        valueIn m x.1 x.2
      return some (values ++ (← ((List.replicate n 'I').drop values.length).mapM padding)) := by
  simp only [solveBranch, zip_mentioned hover h, mapM_variableFor, ok_bind,
    b.constraints_eq hover h, hts, hm]

theorem solveBranch_sat (hover : b.IsOver n) (h : AreTexts texts b.conditions)
    (hts : b.terms = .ok ts) (hm : oracle ts = .sat m) (hvalues : b.HasValues m) :
    solveBranch oracle texts (List.replicate n 'I') =
      .ok (some ((b.solution n m).map Datum.int)) := by
  simp only [solveBranch_eq hover h hts hm, mapM_valueIn hvalues, ok_bind, List.length_map,
    List.drop_replicate, mapM_padding, pure_eq_ok, Branch.solution, List.map_append]

theorem solveBranch_unvalued (hover : b.IsOver n) (h : AreTexts texts b.conditions)
    (hts : b.terms = .ok ts) (hm : oracle ts = .sat m) (hvalues : ¬ b.HasValues m) :
    ∃ e, solveBranch oracle texts (List.replicate n 'I') = .error e := by
  simp only [Branch.HasValues, not_forall] at hvalues
  obtain ⟨i, hi, hnone⟩ := hvalues
  have hmem : (parameterName i, 'I') ∈ (b.params.map parameterName).map fun x => (x, 'I') := by
    simpa using ⟨i, hi, rfl⟩
  obtain ⟨e, he⟩ := mapM_eq_error (f := fun x => valueIn m x.1 x.2) hmem (valueIn_eq_error hnone)
  exact ⟨e, by simp only [solveBranch_eq hover h hts hm, he, error_bind]⟩

theorem solveBranch_none (hover : b.IsOver n) (h : AreTexts texts b.conditions)
    (hts : b.terms = .ok ts) (hm : ∀ m, oracle ts ≠ .sat m) :
    solveBranch oracle texts (List.replicate n 'I') = .ok none := by
  simp only [solveBranch, zip_mentioned hover h, mapM_variableFor, ok_bind,
    b.constraints_eq hover h, hts]
  cases hans : oracle ts with
  | sat m => exact absurd hans (hm m)
  | unsat => rfl
  | unknown => rfl

end Solving

section Inputs

variable {line : BranchLine} {rest : List BranchLine} {branches : List Branch}

theorem takeInputs_eq {letters : List Char} {solution : List Datum}
    (h : solution.length = letters.length) :
    takeInputs letters solution = .ok solution := by
  rw [takeInputs, if_neg (by omega), ← h, List.take_length]

/-- The inputs of a branch come before those of the branches after it. -/
theorem inputsOf_cons (hover : b.IsOver n) (hreads : Reads line b)
    (hvalued : b.status = "SAT" → b.IsValued oracle) :
    inputsOf oracle (List.replicate n 'I') (line :: rest) = do
      return (b.inputs oracle n).map (List.map Datum.int) ++
        (← inputsOf oracle (List.replicate n 'I') rest) := by
  obtain ⟨ts, hts, -⟩ := b.exists_terms hover hreads.texts
  have hnil : (∀ values, values ∉ b.inputs oracle n) →
      inputsOf oracle (List.replicate n 'I') rest = do
      return (b.inputs oracle n).map (List.map Datum.int) ++
        (← inputsOf oracle (List.replicate n 'I') rest) := by
    intro hnone
    simp [List.eq_nil_iff_forall_not_mem.2 hnone, bind_ok]
  rw [inputsOf, hreads.status]
  by_cases hsat : b.status = "SAT"
  · rw [if_pos hsat]
    by_cases hm : ∃ m, oracle ts = .sat m
    · obtain ⟨m, hm⟩ := hm
      have hlength := b.length_solution hover m
      rw [solveBranch_sat hover hreads.texts hts hm (hvalued hsat ts m hts hm), ok_bind]
      -- A method without parameters has the empty solution, and that is left out.
      cases hsolution : b.solution n m with
      | nil =>
        have hn : ¬ 0 < n := by simpa [hsolution, eq_comm] using hlength
        exact hnil fun values hmem => hn (Branch.mem_inputs.1 hmem).1.2
      | cons v vs =>
        have hn : 0 < n := by
          rw [hsolution, List.length_cons] at hlength
          omega
        have htake : takeInputs (List.replicate n 'I') ((v :: vs).map Datum.int) =
            .ok ((v :: vs).map Datum.int) :=
          takeInputs_eq (by simpa [hsolution] using hlength)
        have hinputs : b.inputs oracle n = [v :: vs] := by
          simp [Branch.inputs, hts, hm, hsat, hn, hsolution]
        rw [hinputs]
        exact congrArg (· >>= fun input =>
          do return input :: (← inputsOf oracle (List.replicate n 'I') rest)) htake
    · rw [not_exists] at hm
      rw [solveBranch_none hover hreads.texts hts hm, ok_bind]
      refine hnil fun values hmem => ?_
      obtain ⟨-, us, m, hus, hsolved, -⟩ := Branch.mem_inputs.1 hmem
      obtain rfl := Except.ok.inj (hts.symm.trans hus)
      exact hm m hsolved
  · rw [if_neg hsat]
    exact hnil fun values hmem => hsat (Branch.mem_inputs.1 hmem).1.1

theorem inputsOf_cons_error (hover : b.IsOver n) (hreads : Reads line b) (hsat : b.status = "SAT")
    (hvalued : ¬ b.IsValued oracle) :
    ∃ e, inputsOf oracle (List.replicate n 'I') (line :: rest) = .error e := by
  simp only [Branch.IsValued, not_forall] at hvalued
  obtain ⟨ts, m, hts, hm, hvalues⟩ := hvalued
  obtain ⟨e, he⟩ := solveBranch_unvalued hover hreads.texts hts hm hvalues
  refine ⟨e, ?_⟩
  rw [inputsOf, hreads.status, if_pos hsat, he]
  rfl

/-- There are inputs exactly if every branch that can be taken has its values. -/
theorem inputsOf_eq_ok {lines : List BranchLine} (hreads : List.Forall₂ Reads lines branches)
    (hover : ∀ b ∈ branches, b.IsOver n) {inputs : List (List Datum)} :
    inputsOf oracle (List.replicate n 'I') lines = .ok inputs ↔
      (∀ b ∈ branches, b.status = "SAT" → b.IsValued oracle) ∧
        inputs = (branches.flatMap (Branch.inputs oracle n)).map (List.map Datum.int) := by
  induction hreads generalizing inputs with
  | nil => simp [inputsOf, eq_comm]
  | @cons line b lines branches hline _ ih =>
    have ih := @ih fun b hb => hover b (by simp [hb])
    by_cases hvalued : b.status = "SAT" → b.IsValued oracle
    · rw [inputsOf_cons (hover b (by simp)) hline hvalued, bind_eq_ok]
      simp only [ih, List.forall_mem_cons, List.flatMap_cons, List.map_append, pure_eq_ok,
        Except.ok.injEq]
      constructor
      · rintro ⟨xs, ⟨hall, rfl⟩, rfl⟩
        exact ⟨⟨hvalued, hall⟩, rfl⟩
      · rintro ⟨⟨-, hall⟩, rfl⟩
        exact ⟨_, ⟨hall, rfl⟩, rfl⟩
    · obtain ⟨hsat, hvalued⟩ := Classical.not_imp.1 hvalued
      have hfails : ∃ e, inputsOf oracle (List.replicate n 'I') (line :: lines) = .error e :=
        inputsOf_cons_error (hover b (by simp)) hline hsat hvalued
      obtain ⟨e, he⟩ := hfails
      rw [he]
      exact ⟨nofun, fun h => absurd (h.1 b (by simp) hsat) hvalued⟩

theorem sames_ints {xs ys : List Int} :
    Datum.sames (xs.map Datum.int) (ys.map Datum.int) = true ↔ xs = ys := by
  induction xs generalizing ys with
  | nil => cases ys <;> simp [Datum.sames]
  | cons x xs ih => cases ys <;> simp [Datum.sames, Datum.same, ih]

/-- Among equal inputs one stays. -/
theorem distinct_ints (inputs : List (List Int)) : ∃ found : List (List Int),
    distinct (inputs.map (List.map Datum.int)) = found.map (List.map Datum.int) ∧
    ∀ x, x ∈ found ↔ x ∈ inputs := by
  have hfold : ∀ acc : List (List Int), ∃ found : List (List Int),
      (inputs.map (List.map Datum.int)).foldl
        (fun acc x => if acc.any fun y => Datum.sames y x then acc else acc ++ [x])
          (acc.map (List.map Datum.int)) =
        found.map (List.map Datum.int) ∧ ∀ x, x ∈ found ↔ x ∈ acc ∨ x ∈ inputs := by
    induction inputs with
    | nil => exact fun acc => ⟨acc, rfl, by simp⟩
    | cons input inputs ih =>
      intro acc
      have hany :
          ((acc.map (List.map Datum.int)).any fun y => Datum.sames y (input.map Datum.int)) = true ↔
          input ∈ acc := by
        simp [sames_ints]
      rw [List.map_cons, List.foldl_cons]
      by_cases hmem : input ∈ acc
      · obtain ⟨found, hfound, hall⟩ := ih acc
        refine ⟨found, by rw [if_pos (hany.2 hmem), hfound], fun x => ?_⟩
        rw [hall, List.mem_cons]
        exact ⟨fun h => h.imp_right .inr,
          fun h => h.elim .inl fun h => h.elim (fun h => .inl (h ▸ hmem)) .inr⟩
      · obtain ⟨found, hfound, hall⟩ := ih (acc ++ [input])
        refine ⟨found, ?_, fun x => by simp [hall, or_assoc]⟩
        rw [if_neg (mt hany.1 hmem), ← hfound, List.map_append]
        rfl
  simpa [distinct] using hfold []

theorem wrapObjects_ints {fuel : Nat} (h : n ≤ fuel) (index : Nat) (inputs : List (List Datum)) :
    wrapObjects fuel (List.replicate n 'I') index inputs = .ok inputs := by
  induction n generalizing fuel index with
  | zero => simp [wrapObjects]
  | succ n ih =>
    obtain ⟨fuel, rfl⟩ : ∃ k, fuel = k + 1 := ⟨fuel - 1, by omega⟩
    rw [List.replicate_succ, wrapObjects]
    · exact ih (by omega) (index + 1)
    · decide

/-- The generator finds the inputs of the branches, and fails if a value is missing. -/
theorem generate_eq_ok {lines : List String} (hlines : List.Forall₂ Branch.IsLine lines branches)
    (hover : ∀ b ∈ branches, b.IsOver n) {inputs : List (List Datum)} :
    generate oracle lines (List.replicate n 'I') (List.replicate n 'I') = .ok inputs ↔
      (∀ b ∈ branches, b.status = "SAT" → b.IsValued oracle) ∧
        inputs =
          distinct ((branches.flatMap (Branch.inputs oracle n)).map (List.map Datum.int)) := by
  have hfuel : n ≤ (List.replicate n 'I').length + (List.replicate n 'I').length + 1 := by
    rw [List.length_replicate]
    omega
  rw [generate, bind_eq_ok]
  simp only [inputsOf_eq_ok (reads_parseBranches hlines) hover, wrapObjects_ints hfuel,
    Except.ok.injEq]
  constructor
  · rintro ⟨xs, ⟨hvalued, rfl⟩, rfl⟩
    exact ⟨hvalued, rfl⟩
  · rintro ⟨hvalued, rfl⟩
    exact ⟨_, ⟨hvalued, rfl⟩, rfl⟩

end Inputs

section Meaning

variable {line : String}

theorem Branch.IsLine.exists_texts (h : b.IsLine line) : ∃ texts, AreTexts texts b.conditions := by
  obtain ⟨pieces, hpieces, -⟩ := h.text
  exact ⟨_, areTexts_pieces hpieces⟩

/-- The numbers of the parameters as an assignment. -/
def assigned (ρ : Nat → Int) : Assignment :=
  ⟨fun x => ρ ((x.toList.headD 'a').toNat - 'a'.toNat), fun _ => false⟩

theorem numbersOf_assigned (ρ : Nat → Int) {i : Nat} (hi : i < letterCount) :
    numbersOf (assigned ρ) i = ρ i := by
  have hletter : ∀ i < letterCount, (letter i).toNat - 'a'.toNat = i := by decide
  change ρ (((parameterName i).toList.headD 'a').toNat - 'a'.toNat) = ρ i
  rw [toList_parameterName, List.headD_cons, hletter i hi]

theorem holds_assigned (h : AreTexts texts b.conditions) (ρ : Nat → Int) :
    b.Holds (numbersOf (assigned ρ)) ↔ b.Holds ρ :=
  b.holds_congr fun c hc _ hi => numbersOf_assigned ρ (h.params_lt c hc _ hi)

theorem holds_bound_solution (h : AreTexts texts b.conditions) :
    b.Holds (b.bound (b.solution n m)) ↔ b.Holds (numbersOf m.assignment) :=
  b.holds_congr fun c hc _ hi => b.bound_solution ((b.mem_params h).2 ⟨c, hc, hi⟩)

theorem holds_bound_of_isGapless (h : AreTexts texts b.conditions) (hgapless : b.IsGapless)
    (values : List Int) :
    b.Holds (b.bound values) ↔ b.Holds fun i => values.getD i 0 :=
  b.holds_congr fun c hc _ hi =>
    b.bound_of_isGapless hgapless ((b.mem_params h).2 ⟨c, hc, hi⟩) values

/-- What is asked of the oracle, said of the branch. -/
theorem solves_iff (hover : b.IsOver n) (h : AreTexts texts b.conditions) (hts : b.terms = .ok ts) :
    oracle.Solves ts ↔ (∀ m, oracle ts = .sat m → b.Holds (numbersOf m.assignment)) ∧
      ∀ ρ, b.Holds ρ → ∃ m, oracle ts = .sat m := by
  obtain ⟨us, hus, hmeaning⟩ := b.exists_terms hover h
  obtain rfl := Except.ok.inj (hts.symm.trans hus)
  constructor
  · intro hsolves
    exact ⟨fun m hm => (hmeaning m.assignment).1 (hsolves.sound m hm),
      fun ρ hρ => hsolves.complete (assigned ρ) ((hmeaning _).2 ((holds_assigned h ρ).2 hρ))⟩
  · rintro ⟨hsound, hcomplete⟩
    exact ⟨fun m hm => (hmeaning m.assignment).2 (hsound m hm),
      fun σ hσ => hcomplete (numbersOf σ) ((hmeaning σ).1 hσ)⟩

/-- An input of a branch takes it. -/
theorem holds_of_mem_inputs (hover : b.IsOver n) (h : AreTexts texts b.conditions)
    (hsolves : ∀ ts, b.terms = .ok ts → oracle.Solves ts) {values : List Int}
    (hmem : values ∈ b.inputs oracle n) :
    values.length = n ∧ b.Holds (b.bound values) := by
  obtain ⟨-, ts, m, hts, hm, rfl⟩ := Branch.mem_inputs.1 hmem
  have hholds := ((solves_iff hover h hts).1 (hsolves ts hts)).1 m hm
  exact ⟨b.length_solution hover m, (holds_bound_solution h).2 hholds⟩

/-- A branch that can be taken has an input. -/
theorem exists_mem_inputs (hn : 0 < n) (hover : b.IsOver n) (h : AreTexts texts b.conditions)
    (hsolves : ∀ ts, b.terms = .ok ts → oracle.Solves ts) (hsat : b.status = "SAT") {ρ : Nat → Int}
    (hρ : b.Holds ρ) :
    ∃ values, values ∈ b.inputs oracle n := by
  obtain ⟨ts, hts, -⟩ := b.exists_terms hover h
  obtain ⟨m, hm⟩ := ((solves_iff hover h hts).1 (hsolves ts hts)).2 ρ hρ
  exact ⟨b.solution n m, Branch.mem_inputs.2 ⟨⟨hsat, hn⟩, ts, m, hts, hm, rfl⟩⟩

theorem exists_texts_of_mem {lines : List String} {branches : List Branch}
    (h : List.Forall₂ Branch.IsLine lines branches) (hb : b ∈ branches) :
    ∃ texts, AreTexts texts b.conditions := by
  induction h with
  | nil => cases hb
  | cons hline _ ih =>
    rcases List.mem_cons.1 hb with rfl | hb
    · exact hline.exists_texts
    · exact ih hb

end Meaning

/-- The generator gives inputs exactly if the models leave out no parameter that their branches
mention. Each input takes a branch, and each branch that can be taken has one, with the values bound
to the parameters that the branch mentions, one after the other. These are the values at the
parameters' own places if the branch mentions every parameter up to its last. -/
theorem generate_takes_branches {lines : List String} {branches : List Branch}
    (hlines : List.Forall₂ Branch.IsLine lines branches) (hover : ∀ b ∈ branches, b.IsOver n)
    (hsolves : ∀ b ∈ branches, b.status = "SAT" → ∀ ts, b.terms = .ok ts → oracle.Solves ts) :
    ((∃ inputs, generate oracle lines (List.replicate n 'I') (List.replicate n 'I') = .ok inputs) ↔
      ∀ b ∈ branches, b.status = "SAT" → b.IsValued oracle) ∧
    (∀ inputs, generate oracle lines (List.replicate n 'I') (List.replicate n 'I') = .ok inputs →
      ∃ found : List (List Int), inputs = found.map (List.map Datum.int) ∧
        (∀ values ∈ found, values.length = n ∧ ∃ b ∈ branches, b.status = "SAT" ∧
          b.Holds (b.bound values)) ∧
        (0 < n → ∀ b ∈ branches, b.status = "SAT" → (∃ ρ, b.Holds ρ) →
          ∃ values ∈ found, b.Holds (b.bound values))) ∧
    ∀ b ∈ branches, b.IsGapless → ∀ values, b.Holds (b.bound values) ↔
      b.Holds fun i => values.getD i 0 := by
  have htexts : ∀ b ∈ branches, ∃ texts, AreTexts texts b.conditions :=
    fun b hb => exists_texts_of_mem hlines hb
  refine ⟨?_, ?_, ?_⟩
  · simp only [generate_eq_ok hlines hover, exists_and_left, exists_eq, and_true]
  · intro inputs h
    obtain ⟨-, rfl⟩ := (generate_eq_ok hlines hover).1 h
    obtain ⟨found, hfound, hmem⟩ := distinct_ints (branches.flatMap (Branch.inputs oracle n))
    refine ⟨found, hfound, ?_, ?_⟩
    · intro values hvalues
      obtain ⟨b, hb, hinput⟩ := List.mem_flatMap.1 ((hmem values).1 hvalues)
      obtain ⟨texts, htext⟩ := htexts b hb
      have hsat := (Branch.mem_inputs.1 hinput).1.1
      obtain ⟨hlength, hholds⟩ := holds_of_mem_inputs (hover b hb) htext (hsolves b hb hsat) hinput
      exact ⟨hlength, b, hb, hsat, hholds⟩
    · rintro hn b hb hsat ⟨ρ, hρ⟩
      obtain ⟨texts, htext⟩ := htexts b hb
      obtain ⟨values, hinput⟩ := exists_mem_inputs hn (hover b hb) htext (hsolves b hb hsat) hsat hρ
      obtain ⟨-, hholds⟩ := holds_of_mem_inputs (hover b hb) htext (hsolves b hb hsat) hinput
      exact ⟨values, (hmem values).2 (List.mem_flatMap.2 ⟨b, hb, hinput⟩), hholds⟩
  · intro b hb hgapless values
    obtain ⟨texts, htext⟩ := htexts b hb
    exact holds_bound_of_isGapless htext hgapless values

section Samples

/-- A branch on the second parameter alone. -/
def secondIsThree : Branch := ⟨[⟨.param 1, .eq, .numeral 3⟩], "SAT"⟩

/-- A branch on both parameters, one on the second, and one that cannot be taken. -/
def samples : List Branch :=
  [⟨[⟨.join .sub (.param 0) (.join .mul (.numeral 2) (.param 1)), .eq, .neg (.numeral 3)⟩,
      ⟨.param 1, .lt, .join .add (.param 0) (.numeral 1)⟩], "SAT"⟩,
    secondIsThree,
    ⟨[⟨.param 0, .ne, .param 0⟩], "UNSAT"⟩]

def sampleLines : List String :=
  ["Branch: [a - 2*b == -3, b < (a + 1)], Status: SAT", "Branch: [b == 3], Status: SAT",
    "Branch: [a != a], Status: UNSAT"]

def sampleModel : Model := ⟨[("a", 3), ("b", 3)], []⟩

def sampleOracle : Oracle := fun _ => .sat sampleModel

theorem isLine_samples : List.Forall₂ Branch.IsLine sampleLines samples := by
  have hsat : "SAT".toList ≠ [] ∧ ∀ c ∈ "SAT".toList, Text.isWord c = true :=
    ⟨by decide, List.all_eq_true.1 (by decide +kernel)⟩
  have hunsat : "UNSAT".toList ≠ [] ∧ ∀ c ∈ "UNSAT".toList, Text.isWord c = true :=
    ⟨by decide, List.all_eq_true.1 (by decide +kernel)⟩
  have hatom : ∀ {s q}, Written .atom s q → Written .sum s q := fun h => .sum (.product (.factor h))
  have ha : Written .atom (parameterName 0).toList (.param 0) := .param (by decide)
  have hb : Written .atom (parameterName 1).toList (.param 1) := .param (by decide)
  have hdifference :=
    Written.join .sub 1 1 (hatom ha) (.join .mul 0 0 (.product (.factor (.numeral 2))) (.factor hb))
  have hminus := Written.neg 0 (.factor (.numeral 3))
  have hsum := Written.paren 0 0 (.join .add 1 1 (hatom ha) (.product (.factor (.numeral 1))))
  refine .cons ⟨⟨_, .cons ⟨0, _, 0, ⟨_, _, 1, 1, hdifference, .sum (.product hminus), rfl⟩, rfl⟩
    (.cons ⟨1, _, 0, ⟨_, _, 1, 1, hatom hb, hatom hsum, rfl⟩, rfl⟩ .nil), by decide⟩, hsat⟩
      (.cons ?_ (.cons ?_ .nil))
  · exact ⟨⟨_, .cons ⟨0, _, 0, ⟨_, _, 1, 1, hatom hb, hatom (.numeral 3), rfl⟩, rfl⟩ .nil,
      by decide⟩, hsat⟩
  · exact ⟨⟨_, .cons ⟨0, _, 0, ⟨_, _, 1, 1, hatom ha, hatom ha, rfl⟩, rfl⟩ .nil, by decide⟩, hunsat⟩

theorem isOver_samples : ∀ b ∈ samples, b.IsOver 2 := by decide +kernel

theorem isValued_samples : ∀ b ∈ samples, b.status = "SAT" → b.IsValued sampleOracle := by
  have hvalues : ∀ b ∈ samples, ∀ i ∈ b.params,
      sampleModel.numbers.lookup (parameterName i) = some 3 := by
    decide +kernel
  intro b hb _ ts m _ hm i hi
  obtain rfl := Satisfiable.sat.inj hm
  exact ⟨3, hvalues b hb i hi, by decide +kernel⟩

theorem holds_samples :
    ∀ b ∈ samples, b.status = "SAT" → b.Holds (numbersOf sampleModel.assignment) := by
  decide +kernel

theorem solves_samples :
    ∀ b ∈ samples, b.status = "SAT" → ∀ ts, b.terms = .ok ts → sampleOracle.Solves ts := by
  intro b hb hsat ts hts
  obtain ⟨texts, htexts⟩ := exists_texts_of_mem isLine_samples hb
  refine (solves_iff (isOver_samples b hb) htexts hts).2 ⟨fun m hm => ?_, fun ρ _ => ⟨_, rfl⟩⟩
  obtain rfl := Satisfiable.sat.inj hm
  exact holds_samples b hb hsat

theorem generate_samples : ∃ found : List (List Int),
    generate sampleOracle sampleLines ['I', 'I'] ['I', 'I'] = .ok (found.map (List.map Datum.int)) ∧
    (∀ values ∈ found, values.length = 2 ∧ ∃ b ∈ samples, b.status = "SAT" ∧
      b.Holds (b.bound values)) ∧
    ∀ b ∈ samples, b.status = "SAT" → ∃ values ∈ found, b.Holds (b.bound values) := by
  obtain ⟨hok, hinputs, -⟩ := generate_takes_branches isLine_samples isOver_samples solves_samples
  obtain ⟨inputs, h⟩ := hok.2 isValued_samples
  obtain ⟨found, rfl, hsound, hcomplete⟩ := hinputs inputs h
  exact ⟨found, h, hsound,
    fun b hb hsat => hcomplete (by decide) b hb hsat ⟨_, holds_samples b hb hsat⟩⟩

/-- The value of the second parameter comes first if the branch does not mention the first one. -/
theorem generate_second_parameter :
    secondIsThree.IsLine "Branch: [b == 3], Status: SAT" ∧ secondIsThree.IsOver 2 ∧
    (∀ ts, secondIsThree.terms = .ok ts → sampleOracle.Solves ts) ∧
    generate sampleOracle ["Branch: [b == 3], Status: SAT"] ['I', 'I'] ['I', 'I'] =
      .ok [[.int 3, .int 0]] ∧
    ¬ secondIsThree.Holds fun i => [3, 0].getD i 0 := by
  have hmem : secondIsThree ∈ samples := by simp [samples]
  obtain ⟨-, hrest⟩ := List.forall₂_cons.1 isLine_samples
  obtain ⟨hline, -⟩ := List.forall₂_cons.1 hrest
  have hover := isOver_samples _ hmem
  have hinputs : secondIsThree.inputs sampleOracle 2 = [[3, 0]] := by decide +kernel
  refine ⟨hline, hover, solves_samples _ hmem rfl, ?_, by decide⟩
  refine (generate_eq_ok (.cons hline .nil) (List.forall_mem_singleton.2 hover)).2
    ⟨List.forall_mem_singleton.2 (isValued_samples _ hmem), ?_⟩
  rw [List.flatMap_singleton, hinputs]
  rfl

end Samples

end Corpus

end Assay
