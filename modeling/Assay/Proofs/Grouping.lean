import Assay.Case
import Assay.Proofs.Order
import Assay.Proofs.Sorting

/-!
# Cases by method

One case after the other is added to the group of its method, so the groups are the cases of each
method in the order of the list, and nothing is lost. The groups are then sorted by their methods:
where these can be compared, this is a strict total order, and every method stands in its place
once.
-/

namespace Assay.Case

/-- The groups hold the cases of each of their methods, in the order of the list. -/
structure IsGrouping (cases : List Case) (gs : List (MethodId × List Case)) : Prop where
  once : (gs.map Prod.fst).Nodup
  methods : ∀ m, m ∈ gs.map Prod.fst ↔ ∃ c ∈ cases, c.method = m
  group : ∀ g ∈ gs, g.2 = cases.filter fun c => c.method = g.1
  perm : (gs.flatMap Prod.snd).Perm cases

variable {cases : List Case} {gs gs' : List (MethodId × List Case)}

theorem IsGrouping.of_perm (h : IsGrouping cases gs) (hperm : gs'.Perm gs) :
    IsGrouping cases gs' where
  once := (hperm.map Prod.fst).nodup_iff.2 h.once
  methods m := (hperm.map Prod.fst).mem_iff.trans (h.methods m)
  group g hg := h.group g (hperm.mem_iff.1 hg)
  perm := (hperm.flatMap_right Prod.snd).trans h.perm

theorem map_fst_addTo (c : Case) (gs : List (MethodId × List Case)) :
    (addTo c gs).map Prod.fst =
      if c.method ∈ gs.map Prod.fst then gs.map Prod.fst else gs.map Prod.fst ++ [c.method] := by
  induction gs with
  | nil => rfl
  | cons g gs ih =>
    obtain ⟨m, cs⟩ := g
    by_cases hm : m = c.method
    · simp [addTo, hm]
    · rw [addTo, if_neg hm, List.map_cons, ih, List.map_cons]
      by_cases hmem : c.method ∈ gs.map Prod.fst
      · rw [if_pos hmem, if_pos (List.mem_cons_of_mem _ hmem)]
      · rw [if_neg hmem, if_neg (by simpa [Ne.symm hm] using hmem), List.cons_append]

theorem flatMap_addTo (c : Case) (gs : List (MethodId × List Case)) :
    ((addTo c gs).flatMap Prod.snd).Perm (gs.flatMap Prod.snd ++ [c]) := by
  induction gs with
  | nil => exact .refl _
  | cons g gs ih =>
    obtain ⟨m, cs⟩ := g
    by_cases hm : m = c.method
    · rw [addTo, if_pos hm, List.flatMap_cons, List.flatMap_cons, List.append_assoc,
        List.append_assoc]
      exact List.perm_append_comm.append_left cs
    · rw [addTo, if_neg hm, List.flatMap_cons, List.flatMap_cons, List.append_assoc]
      exact ih.append_left cs

/-- A group is as it was, or it is that of the new case: one that was there, or a new one. -/
theorem mem_addTo {c : Case} (hnodup : (gs.map Prod.fst).Nodup) {g : MethodId × List Case}
    (hg : g ∈ addTo c gs) :
    (g ∈ gs ∧ g.1 ≠ c.method) ∨ (∃ cs, (c.method, cs) ∈ gs ∧ g = (c.method, cs ++ [c])) ∨
      (c.method ∉ gs.map Prod.fst ∧ g = (c.method, [c])) := by
  induction gs with
  | nil => exact .inr (.inr ⟨List.not_mem_nil, List.mem_singleton.1 hg⟩)
  | cons k gs ih =>
    obtain ⟨m, cs⟩ := k
    obtain ⟨hm, hnodup⟩ := List.nodup_cons.1 hnodup
    by_cases heq : m = c.method
    · subst heq
      rw [addTo, if_pos rfl] at hg
      rcases List.mem_cons.1 hg with rfl | hg
      · exact .inr (.inl ⟨cs, List.mem_cons_self, rfl⟩)
      · exact .inl ⟨List.mem_cons_of_mem _ hg, fun h => hm (List.mem_map.2 ⟨g, hg, h⟩)⟩
    · rw [addTo, if_neg heq] at hg
      rcases List.mem_cons.1 hg with rfl | hg
      · exact .inl ⟨List.mem_cons_self, heq⟩
      · rcases ih hnodup hg with ⟨hg, hne⟩ | ⟨ds, hds, rfl⟩ | ⟨hnone, rfl⟩
        · exact .inl ⟨List.mem_cons_of_mem _ hg, hne⟩
        · exact .inr (.inl ⟨ds, List.mem_cons_of_mem _ hds, rfl⟩)
        · exact .inr (.inr ⟨by simpa [Ne.symm heq] using hnone, rfl⟩)

/-- One more case goes to the end of the group of its method. -/
theorem IsGrouping.addTo (h : IsGrouping cases gs) (c : Case) :
    IsGrouping (cases ++ [c]) (Case.addTo c gs) where
  once := by
    rw [map_fst_addTo]
    split
    · exact h.once
    next hnone =>
      refine List.nodup_append.2 ⟨h.once, List.pairwise_singleton _ _, fun m hm n hn e => hnone ?_⟩
      rwa [← List.mem_singleton.1 hn, ← e]
  methods m := by
    have hsplit : (∃ d ∈ cases ++ [c], d.method = m) ↔ m ∈ gs.map Prod.fst ∨ m = c.method := by
      rw [h.methods]
      simp [or_and_right, exists_or, eq_comm]
    rw [hsplit, map_fst_addTo]
    split
    next hmem => exact ⟨.inl, fun hm => hm.elim id fun e => e ▸ hmem⟩
    · simp
  group g hg := by
    rw [List.filter_append]
    rcases mem_addTo h.once hg with ⟨hold, hne⟩ | ⟨cs, hcs, rfl⟩ | ⟨hnone, rfl⟩
    · simp [h.group g hold, Ne.symm hne]
    · simp [← h.group _ hcs]
    · have hempty : cases.filter (fun d => d.method = c.method) = [] := by
        rw [List.filter_eq_nil_iff]
        intro d hd he
        exact hnone ((h.methods _).2 ⟨d, hd, by simpa using he⟩)
      simp [hempty]
  perm := (flatMap_addTo c gs).trans (h.perm.append_right [c])

theorem isGrouping_groups (cases : List Case) : IsGrouping cases (groups cases) := by
  have hfold : ∀ (more done : List Case) (gs : List (MethodId × List Case)), IsGrouping done gs →
      IsGrouping (done ++ more) (more.foldl (fun gs c => Case.addTo c gs) gs) := by
    intro more
    induction more with
    | nil => intro done gs h; simpa using h
    | cons c more ih => intro done gs h; simpa using ih _ _ (h.addTo c)
  exact hfold cases [] [] ⟨List.nodup_nil, by simp, by simp, .refl _⟩

/-- Among identifiers of simple types and arrays of them, of which no two differ only in whether
they return a value, there is a strict order: cases are grouped by it. -/
theorem methods_ordered_and_grouped (ids : Set MethodId) (htypes : ∀ m ∈ ids, m.IsPrimitive)
    (hvoid : ∀ a ∈ ids, ∀ b ∈ ids, a.AgreeOnVoid b) :
    Sorting.IsStrictTotal (MethodId.rel .lt) ids ∧
    (∀ t u : Ty, t.isSimple = true → Ty.rel .lt t u = .ok (decide (t.encode ≤ u.encode))) ∧
    ∀ cases : List Case, (∀ c ∈ cases, c.method ∈ ids) →
      ∃ gs, byMethod cases = .ok gs ∧ IsGrouping cases gs ∧
        gs.Pairwise fun g h => MethodId.rel .lt g.1 h.1 = .ok true := by
  have hcompares : Sorting.Compares (MethodId.rel .lt) MethodId.sortKey (· ∈ ids) :=
    fun a b ha hb => MethodId.rel_lt (htypes a ha) (htypes b hb) (hvoid a ha b hb)
  refine ⟨hcompares.isStrictTotal fun a ha b hb =>
    MethodId.sortKey_injective (htypes a ha) (htypes b hb),
    fun t u ht => Ty.rel_lt_of_isSimple ht u, fun cases hcases => ?_⟩
  have hgrouping := isGrouping_groups cases
  have hids : ∀ gs, IsGrouping cases gs → ∀ g ∈ gs, g.1 ∈ ids := by
    intro gs h g hg
    obtain ⟨c, hc, hmethod⟩ := (h.methods g.1).1 (List.mem_map_of_mem hg)
    exact hmethod ▸ hcases c hc
  have hgroups : Sorting.Compares (fun g h => MethodId.rel .lt g.1 h.1)
      (fun g : MethodId × List Case => g.1.sortKey) (· ∈ groups cases) := fun g h hg hh =>
    hcompares g.1 h.1 (hids _ hgrouping g hg) (hids _ hgrouping h hh)
  obtain ⟨gs, hsort, hascending, hperm⟩ := Sorting.sort_eq_ok hgroups
  have hgs := hgrouping.of_perm hperm
  refine ⟨gs, hsort, hgs, ?_⟩
  -- no key stands twice, so the keys go up at each place
  refine (hascending.and (List.pairwise_map.1 hgs.once)).imp_of_mem fun {g h} hg hh hgh => ?_
  have hg := hids _ hgs g hg
  have hh := hids _ hgs h hh
  have hne : g.1.sortKey ≠ h.1.sortKey := fun e =>
    hgh.2 (MethodId.sortKey_injective (htypes _ hg) (htypes _ hh) e)
  rw [hcompares g.1 h.1 hg hh, decide_eq_true (lt_of_le_of_ne hgh.1 hne)]

/-- Three methods of one name. -/
def rowMethods : List MethodId :=
  [⟨⟨"math.Row"⟩, "at", [.array (.array .int)], some .int⟩,
    ⟨⟨"math.Row"⟩, "at", [.array .int, .int], some .int⟩, ⟨⟨"math.Row"⟩, "at", [.boolean], none⟩]

/-- Four cases, the first and the third of one method. -/
def rowCases : List Case :=
  [⟨rowMethods[0], [], "ok"⟩, ⟨rowMethods[1], [], "ok"⟩, ⟨rowMethods[0], [], "out of bounds"⟩,
    ⟨rowMethods[2], [], "ok"⟩]

theorem isPrimitive_rowMethods : ∀ m ∈ rowMethods, m.IsPrimitive := by
  simp only [rowMethods, List.forall_mem_cons]
  exact ⟨⟨by simp; rfl, by simp; rfl⟩, ⟨by simp; exact ⟨rfl, rfl⟩, by simp; rfl⟩,
    ⟨by simp; rfl, by simp⟩, by simp⟩

theorem agreeOnVoid_rowMethods : ∀ a ∈ rowMethods, ∀ b ∈ rowMethods, a.AgreeOnVoid b := by
  simp [rowMethods, MethodId.AgreeOnVoid]

theorem rowCases_grouped :
    (∀ m ∈ rowMethods, m.IsPrimitive) ∧ (∀ a ∈ rowMethods, ∀ b ∈ rowMethods, a.AgreeOnVoid b) ∧
    (∀ c ∈ rowCases, c.method ∈ rowMethods) ∧
    IsGrouping rowCases [(rowMethods[2], [rowCases[3]]), (rowMethods[1], [rowCases[1]]),
      (rowMethods[0], [rowCases[0], rowCases[2]])] := by
  have hcases : ∀ c ∈ rowCases, c.method ∈ rowMethods := by simp [rowCases]
  have hsorted :
      byMethod rowCases = .ok [(rowMethods[2], [rowCases[3]]), (rowMethods[1], [rowCases[1]]),
      (rowMethods[0], [rowCases[0], rowCases[2]])] := by rfl
  obtain ⟨gs, hgs, hgrouping, -⟩ :=
    (methods_ordered_and_grouped {m | m ∈ rowMethods} isPrimitive_rowMethods
    agreeOnVoid_rowMethods).2.2 rowCases hcases
  rw [hsorted] at hgs
  exact ⟨isPrimitive_rowMethods, agreeOnVoid_rowMethods, hcases, Except.ok.inj hgs ▸ hgrouping⟩

end Assay.Case
