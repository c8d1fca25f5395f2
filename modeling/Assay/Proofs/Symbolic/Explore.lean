import Assay.Proofs.Symbolic.Terms
import Assay.Proofs.Text
import Assay.Symbolic.Explore

/-!
# What an exploration finds

`Walk`: a number of steps on terms, each of which goes one of the ways that its instruction has. An
exploration that does not fail finds a branch for every walk whose conditions can hold together, or
another branch whose text has the text of these conditions in it, and finds nothing else. On the way
it has made sure that every such walk can go on or has come to a return.
-/

namespace Assay

/-- The oracle answers that conditions can hold together exactly if some values satisfy them all. -/
def Oracle.IsExact (oracle : Oracle) : Prop :=
  ∀ ts, (oracle ts).isSat = true ↔ ∃ σ : Assignment, ∀ t ∈ ts, t.truthValue? σ = some true

theorem Oracle.IsExact.of_append {oracle : Oracle} (h : oracle.IsExact) {ts us : List Term}
    (hsat : (oracle (ts ++ us)).isSat = true) : (oracle ts).isSat = true := by
  obtain ⟨σ, hσ⟩ := (h _).1 hsat
  exact (h ts).2 ⟨σ, fun t ht => hσ t (List.mem_append_left us ht)⟩

open Classical in
/-- The oracle that is exact by definition. -/
noncomputable def Oracle.exact : Oracle := fun ts =>
  if ∃ σ : Assignment, ∀ t ∈ ts, t.truthValue? σ = some true then .sat .empty else .unsat

theorem Oracle.isExact_exact : Oracle.exact.IsExact := by
  intro ts
  unfold Oracle.exact
  split <;> simp_all [Satisfiable.isSat]

namespace Terms

/-- A number of steps on terms from a place to another, with the conditions of the ways taken. -/
inductive Walk (lib : Library) : Nat → Place → Terms → List Term → Place → Terms → Prop
  | stay (p : Place) (ts : Terms) : Walk lib 0 p ts [] p ts
  | step {n : Nat} {p q : Place} {ts ts' us : Terms} {i : Instr} {j : Bool} {path : List Term}
      (hfetch : Machine.fetch lib p = .ok i) (hfollow : ts.follow i.op = some ts')
      (hj : j ∈ i.op.ways) (h : Walk lib n (p.follow i.op j) ts' path q us) :
      Walk lib (n + 1) p ts (ts.conditions i.op j ++ path) q us

/-- The instruction at the place is a return or can be followed. -/
def Ready (lib : Library) (p : Place) (ts : Terms) : Prop :=
  ∃ i, Machine.fetch lib p = .ok i ∧ ((∃ t, i.op = .ret t) ∨ ∃ ts', ts.follow i.op = some ts')

theorem Walk.uncons {lib : Library} {n : Nat} {p q : Place} {ts ts' us : Terms} {i : Instr}
    {cs : List Term} (h : Walk lib (n + 1) p ts cs q us) (hfetch : Machine.fetch lib p = .ok i)
    (hnext : (∃ t, i.op = .ret t) ∨ ts.follow i.op = some ts') :
    ∃ j ∈ i.op.ways, ∃ cs', cs = ts.conditions i.op j ++ cs' ∧
      Walk lib n (p.follow i.op j) ts' cs' q us := by
  cases h with
  | @step _ _ _ _ ts'' _ i' j cs' hfetch' hfollow hj h =>
    obtain rfl : i = i' := Except.ok.inj (hfetch.symm.trans hfetch')
    rcases hnext with ⟨t, ht⟩ | hnext
    · rw [ht] at hj
      simp [Op.ways] at hj
    · obtain rfl : ts' = ts'' := Option.some.inj (hnext.symm.trans hfollow)
      exact ⟨j, hj, cs', rfl, h⟩

end Terms

namespace Symbolic

section Survey

variable {print : Term.Printer} {b : Branch} {found : Found} {e : String}

theorem mem_addBranch_of_mem (h : e ∈ found) : e ∈ addBranch print b found := by
  rw [addBranch]
  split
  · exact h
  · exact List.mem_append_left _ h

theorem mem_addBranch (h : e ∈ addBranch print b found) : e ∈ found ∨ e = b.text print := by
  rw [addBranch] at h
  split at h
  · exact .inl h
  · exact (List.mem_append.1 h).imp_right List.mem_singleton.1

theorem Branch.toList_text (print : Term.Printer) (b : Branch) :
    (b.text print).toList = "Branch: ".toList ++ (Term.listText print b.path).toList ++
      (", Status: ".toList ++ (Branch.status b.sat).toList) := by
  simp [Branch.text, toString]

/-- Once a branch is added, the text of its path is found somewhere. -/
theorem exists_mem_addBranch (print : Term.Printer) (b : Branch) (found : Found) :
    ∃ e ∈ addBranch print b found, Text.hasWord (Term.listText print b.path) e = true := by
  rw [addBranch]
  split
  · rename_i h
    exact List.any_eq_true.1 h
  · refine ⟨b.text print, by simp, Text.hasWord_iff.2 ?_⟩
    rw [b.toList_text print]
    exact List.infix_append _ _ _

variable {oracle : Oracle} {path : List Term}

/-- The branch that a successor adds to a path. -/
def Successor.branch (oracle : Oracle) (path : List Term) (x : Successor) : Branch :=
  ⟨path ++ x.conditions, (oracle (path ++ x.conditions)).isSat⟩

theorem survey_mem_of_mem (successors : List Successor) (h : e ∈ found) :
    e ∈ (survey print oracle path successors found).1 := by
  induction successors generalizing found with
  | nil => exact h
  | cons x xs ih =>
    simp only [survey]
    apply ih
    split
    · exact h
    · exact mem_addBranch_of_mem h

theorem mem_survey {successors : List Successor}
    (h : e ∈ (survey print oracle path successors found).1) :
    e ∈ found ∨ ∃ x ∈ successors, path ++ x.conditions ≠ [] ∧
    e = (x.branch oracle path).text print := by
  induction successors generalizing found with
  | nil => exact .inl h
  | cons x xs ih =>
    simp only [survey] at h
    rcases ih h with h | ⟨y, hy, hne, rfl⟩
    · split at h
      · exact .inl h
      · rename_i hne
        rcases mem_addBranch h with h | rfl
        · exact .inl h
        · exact .inr ⟨x, by simp, by simpa using hne, rfl⟩
    · exact .inr ⟨y, by simp [hy], hne, rfl⟩

theorem exists_mem_survey (print : Term.Printer) (oracle : Oracle) (found : Found)
    {successors : List Successor} {x : Successor} (hx : x ∈ successors)
    (hne : path ++ x.conditions ≠ []) :
    ∃ e ∈ (survey print oracle path successors found).1,
      Text.hasWord (Term.listText print (path ++ x.conditions)) e = true := by
  induction successors generalizing found with
  | nil => simp at hx
  | cons y xs ih =>
    simp only [survey]
    rcases List.mem_cons.1 hx with rfl | hx
    · obtain ⟨e, he, hword⟩ := exists_mem_addBranch print (x.branch oracle path) found
      refine ⟨e, survey_mem_of_mem xs ?_, hword⟩
      rw [if_neg (by simpa using hne)]
      exact he
    · exact ih _ hx

/-- The successors that are followed are those whose conditions can hold. -/
theorem mem_survey_kept {successors : List Successor} {k : Successor × List Term} :
    k ∈ (survey print oracle path successors found).2 ↔
      ∃ x ∈ successors, (x.branch oracle path).sat = true ∧ k = (x, path ++ x.conditions) := by
  induction successors generalizing found with
  | nil => simp [survey]
  | cons y xs ih =>
    simp only [survey]
    cases hsat : (oracle (path ++ y.conditions)).isSat with
    | true => simp [ih, Successor.branch, hsat]
    | false => simp [ih, Successor.branch, hsat]

end Survey

section Explore

open Terms (Walk)

variable {print : Term.Printer} {oracle : Oracle} {lib : Library} {depth : Nat} {p : Place}
  {s : State} {ts : Terms} {path : List Term} {found found' : Found}

/-- The text of the branch of a walk of one to `depth + 1` steps, behind a path. -/
def IsBranch (print : Term.Printer) (oracle : Oracle) (lib : Library) (depth : Nat) (p : Place)
    (ts : Terms) (path : List Term) (e : String) : Prop :=
  ∃ n ≤ depth, ∃ cs q us, Walk lib (n + 1) p ts cs q us ∧ path ++ cs ≠ [] ∧
    e = (Branch.mk (path ++ cs) (oracle (path ++ cs)).isSat).text print

/-- What an exploration adds to the branches found, and what it has made sure of. -/
structure Explores (print : Term.Printer) (oracle : Oracle) (lib : Library) (depth : Nat)
    (p : Place) (ts : Terms) (path : List Term) (found found' : Found) : Prop where
  keeps : ∀ e ∈ found, e ∈ found'
  sound : ∀ e ∈ found', e ∈ found ∨ IsBranch print oracle lib depth p ts path e
  ready : ∀ n ≤ depth, ∀ cs q us, Walk lib n p ts cs q us → (oracle (path ++ cs)).isSat = true →
    us.Ready lib q
  covers : ∀ n ≤ depth, ∀ cs q us, Walk lib (n + 1) p ts cs q us →
    (oracle (path ++ cs)).isSat = true → path ++ cs ≠ [] →
    ∃ e ∈ found', Text.hasWord (Term.listText print (path ++ cs)) e = true

/-- One step, and for each successor that is followed the exploration from there. -/
theorem Explores.of_step {s' : State} {ts' : Terms} {i : Instr} {successors : List Successor}
    (hexact : oracle.IsExact) (hfetch : Machine.fetch lib p = .ok i)
    (hnext : (∃ t, i.op = .ret t) ∨ ts.follow i.op = some ts')
    (hsuccs : successors = i.op.ways.map fun j => ⟨p.follow i.op j, s', ts.conditions i.op j⟩)
    (hkeeps : ∀ e ∈ (survey print oracle path successors found).1, e ∈ found')
    (hsound : ∀ e ∈ found', e ∈ (survey print oracle path successors found).1 ∨ ∃ d, depth = d + 1 ∧
      ∃ k ∈ (survey print oracle path successors found).2,
        IsBranch print oracle lib d k.1.place ts' k.2 e)
    (hall : ∀ d, depth = d + 1 → ∀ k ∈ (survey print oracle path successors found).2,
      ∃ found₁ found₂, Explores print oracle lib d k.1.place ts' k.2 found₁ found₂ ∧
        ∀ e ∈ found₂, e ∈ found') :
    Explores print oracle lib depth p ts path found found' := by
  have hwalk : ∀ {n j cs q us}, j ∈ i.op.ways → Walk lib n (p.follow i.op j) ts' cs q us →
      Walk lib (n + 1) p ts (ts.conditions i.op j ++ cs) q us := by
    intro n j cs q us hj h
    refine .step hfetch (hnext.resolve_left ?_) hj h
    rintro ⟨t, ht⟩
    rw [ht] at hj
    simp [Op.ways] at hj
  -- a walk that goes on after the first step is behind a successor that is followed
  have hkept : ∀ {d j cs}, depth = d + 1 → j ∈ i.op.ways →
      (oracle (path ++ (ts.conditions i.op j ++ cs))).isSat = true → ∃ found₁ found₂,
        Explores print oracle lib d (p.follow i.op j) ts' (path ++ ts.conditions i.op j)
          found₁ found₂ ∧
          ∀ e ∈ found₂, e ∈ found' := by
    intro d j cs hd hj hsat
    rw [← List.append_assoc] at hsat
    refine hall d hd (⟨p.follow i.op j, s', ts.conditions i.op j⟩, path ++ ts.conditions i.op j)
      (mem_survey_kept.2 ⟨_, ?_, hexact.of_append hsat, rfl⟩)
    rw [hsuccs]
    exact List.mem_map_of_mem hj
  refine ⟨fun e he => hkeeps e (survey_mem_of_mem successors he), fun e he => ?_, ?_, ?_⟩
  · rcases hsound e he with he | ⟨d, rfl, k, hk, n, hn, cs, q, us, hw, hne, rfl⟩
    · refine (mem_survey he).imp_right ?_
      rintro ⟨x, hx, hne, rfl⟩
      rw [hsuccs] at hx
      obtain ⟨j, hj, rfl⟩ := List.mem_map.1 hx
      exact ⟨0, Nat.zero_le _, _, _, _, hwalk hj (.stay _ _), by simpa using hne, by
        simp [Successor.branch]⟩
    · obtain ⟨x, hx, -, rfl⟩ := mem_survey_kept.1 hk
      rw [hsuccs] at hx
      obtain ⟨j, hj, rfl⟩ := List.mem_map.1 hx
      refine .inr ⟨n + 1, by omega, _, _, _, hwalk hj hw, ?_, ?_⟩
      · rwa [← List.append_assoc]
      · rw [← List.append_assoc]
  · intro n hn cs q us hw hsat
    cases n with
    | zero =>
      cases hw
      exact ⟨i, hfetch, hnext.imp_right fun h => ⟨ts', h⟩⟩
    | succ n =>
      obtain ⟨j, hj, cs, rfl, hrest⟩ := hw.uncons hfetch hnext
      obtain ⟨d, rfl⟩ : ∃ d, depth = d + 1 := ⟨depth - 1, by omega⟩
      obtain ⟨found₁, found₂, hex, -⟩ := hkept rfl hj hsat
      exact hex.ready n (by omega) cs q us hrest (by rwa [List.append_assoc])
  · intro n hn cs q us hw hsat hne
    obtain ⟨j, hj, cs, rfl, hrest⟩ := hw.uncons hfetch hnext
    cases n with
    | zero =>
      cases hrest
      rw [List.append_nil] at hne ⊢
      have hx : Successor.mk (p.follow i.op j) s' (ts.conditions i.op j) ∈ successors := by
        rw [hsuccs]
        exact List.mem_map_of_mem hj
      obtain ⟨e, he, hword⟩ := exists_mem_survey print oracle found hx hne
      exact ⟨e, hkeeps e he, hword⟩
    | succ n =>
      obtain ⟨d, rfl⟩ : ∃ d, depth = d + 1 := ⟨depth - 1, by omega⟩
      obtain ⟨found₁, found₂, hex, hfound⟩ := hkept rfl hj hsat
      rw [← List.append_assoc] at hsat hne ⊢
      obtain ⟨e, he, hword⟩ := hex.covers n (by omega) cs q us hrest hsat hne
      exact ⟨e, hfound e he, hword⟩

end Explore

end Symbolic

end Assay
