import Assay.Catalog.Parse
import Assay.Proofs.Catalog.Chain

/-!
# Classes of source files

A class is made from a file by reading the methods declared in it, and files of the same class name
make the methods of the first of them be read again. In each class made so, the first method of a
name was read from the first declaration of that name, so that called names mean what they should.
-/

namespace Assay

/-- What a parser promises: a declared method has a name, whose text is that of the bytes it covers,
and the names of called methods are text. -/
structure Source.IsParsed (s : Source) : Prop where
  named : ∀ d : Node, d.Within s.root → d.kind = "method_declaration" →
    ∃ x, d.child? "name" = some x ∧ x.kind = "identifier" ∧ s.textOf x = .ok x.text
  called : ∀ call x : Node, call.Within s.root → call.kind = "method_invocation" →
    call.child? "name" = some x → ∃ t, s.textOf x = .ok t

namespace Node

theorem Within.trans {x y z : Node} (h : Within x y) (h' : Within y z) : Within x z := by
  induction h' with
  | self => exact h
  | child hc _ ih => exact .child hc ih

theorem mem_ofKind {kind : String} {n d : Node} :
    d ∈ n.ofKind kind ↔ d.Within n ∧ d.kind = kind := by
  simp [ofKind, ofKinds, mem_all]

/-- Nodes of a kind that follow each other as in the text are not moved. -/
theorem ofKind_eq_ofKinds {kind : String} {n : Node}
    (h : (n.ofKinds [kind]).Pairwise fun a b => a.start ≤ b.start) :
    n.ofKind kind = n.ofKinds [kind] :=
  List.mergeSort_of_pairwise (h.imp fun hle => decide_eq_true hle)

end Node

/-- What is read from a declaration without parameters, variables and assertions. -/
theorem Source.methodOf_bare {s : Source} {n x : Node} {name : String}
    (hx : n.child? "name" = some x) (hname : s.textOf x = .ok name)
    (hparams : n.ofKinds ["formal_parameters"] = [])
    (hlocals : n.ofKinds ["local_variable_declaration"] = [])
    (hassertions : n.ofKinds ["assert_statement"] = []) :
    s.methodOf n = .ok { name, id := none, node := n, params := [], locals := [], assertions := []
                         changesState := false, wrong := [] } := by
  have hnone : ∀ {kind}, n.ofKinds [kind] = [] → n.ofKind kind = [] := fun h => by
    rw [Node.ofKind, h, List.mergeSort_nil]
  have hps : s.parameters n = .ok [] := by
    rw [parameters, hnone hparams]
    rfl
  have hls : s.localVariables n = .ok [] := by
    rw [localVariables, localParts, hnone hlocals]
    simp [pairLocals]
  rw [methodOf]
  simp only [hx, hname, hps, hls, assertions, hnone hassertions, ok_bind]
  rfl

namespace Source.IsParsed

variable {s : Source} {ms : List Method}

/-- A method is read from its declaration. -/
theorem methodOf_eq (h : s.IsParsed) {d : Node}
    (hd : d ∈ s.root.ofKind "method_declaration") {m : Method} (hm : s.methodOf d = .ok m) :
    m.node = d ∧ ∃ x, d.child? "name" = some x ∧ x.kind = "identifier" ∧ m.name = x.text := by
  obtain ⟨hin, hkind⟩ := Node.mem_ofKind.1 hd
  obtain ⟨x, hx, hident, htext⟩ := h.named d hin hkind
  simp only [methodOf, hx, htext, ok_bind] at hm
  obtain ⟨params, -, hm⟩ := bind_eq_ok.1 hm
  obtain ⟨locals, -, hm⟩ := bind_eq_ok.1 hm
  cases hm
  exact ⟨rfl, x, hx, hident, rfl⟩

theorem mem_methods (h : s.IsParsed) (hms : s.methods = .ok ms) {m : Method} (hm : m ∈ ms) :
    m.node ∈ s.root.ofKind "method_declaration" := by
  obtain ⟨d, hd, hread⟩ := (mem_of_mapM hms).1 hm
  rwa [(h.methodOf_eq hd hread).1]

/-- The first method of a name is read from the first declaration of the name. -/
theorem declaration_eq (h : s.IsParsed) (hms : s.methods = .ok ms) {name : String} {m : Method}
    (hm : ms.find? (fun m => m.name = name) = some m) : s.declaration name = .ok m.node := by
  have hfind : ∀ {ds : List Node} {ms : List Method},
      List.Forall₂ (fun d m => s.methodOf d = .ok m) ds ms →
      (∀ d ∈ ds, d ∈ s.root.ofKind "method_declaration") →
      ms.find? (fun m => m.name = name) = some m →
      ds.find? (Node.isNamed · name) = some m.node := by
    intro ds ms hall hds hm
    induction hall with
    | nil => simp at hm
    | @cons d m₁ ds ms hread _ ih =>
      obtain ⟨hnode, x, hx, hident, hname⟩ := h.methodOf_eq (hds d (by simp)) hread
      have hiff : d.isNamed name = decide (m₁.name = name) := by
        simp [Node.isNamed, hx, hident, hname]
      by_cases heq : m₁.name = name
      · obtain rfl : m₁ = m := by simpa [heq] using hm
        simp [hiff, heq, hnode]
      · have hrest := ih (fun d' hd' => hds d' (by simp [hd'])) (by simpa [heq] using hm)
        simp [hiff, heq, hrest]
  rw [declaration, hfind (mapM_eq_ok.1 hms) (fun _ hd => hd) hm]

theorem exists_calledNames (h : s.IsParsed) {d : Node} (hd : d.Within s.root) :
    ∃ names, s.calledNames d = .ok names := by
  have hread :
      ∀ x ∈ ((d.ofKinds ["method_invocation"]).filterMap fun m => m.child? "name").mergeSort
      fun a b => a.start ≤ b.start, ∃ t, s.textOf x = .ok t := by
    intro x hx
    simp only [List.mem_mergeSort, List.mem_filterMap, Node.ofKinds, List.mem_filter,
      Node.mem_all] at hx
    obtain ⟨call, ⟨hin, hkind⟩, hchild⟩ := hx
    exact h.called call x (hin.trans hd) (by simpa using hkind) hchild
  exact exists_mapM hread

/-- A class that holds the methods of its file, and perhaps some of them again, resolves names. -/
theorem resolves {c : Class} (h : c.source.IsParsed) (hms : c.source.methods = .ok ms)
    {rest : List Method} (hc : c.methods = ms ++ rest) (hrest : ∀ m ∈ rest, m ∈ ms) :
    c.Resolves where
  declared name m hm := by
    rw [Class.method?, hc, List.find?_append, Option.or_eq_some_iff] at hm
    rcases hm with hm | ⟨hnone, hm⟩
    · exact h.declaration_eq hms hm
    · have hmem := hrest m (List.mem_of_find?_eq_some hm)
      exact absurd (List.find?_some hm) (List.find?_eq_none.1 hnone m hmem)
  readable m hm := by
    have hmem : m ∈ ms := by
      rw [hc, List.mem_append] at hm
      exact hm.elim id (hrest m)
    exact h.exists_calledNames (Node.mem_ofKind.1 (h.mem_methods hms hmem)).1

end Source.IsParsed

namespace Catalog

/-- The methods of the class are those of its file, some of them perhaps more than once. -/
def IsRead (k : Class) : Prop :=
  k.source.IsParsed ∧
  (k.methods = [] ∨ ∃ ms rest, k.source.methods = .ok ms ∧ k.methods = ms ++ rest ∧
    ∀ m ∈ rest, m ∈ ms)

theorem IsRead.resolves {k : Class} (h : IsRead k) : k.Resolves := by
  obtain ⟨hs, hnone | ⟨ms, rest, hms, hk, hrest⟩⟩ := h
  · exact ⟨fun name m hm => by simp [Class.method?, hnone] at hm, by simp [hnone]⟩
  · exact hs.resolves hms hk hrest

theorem IsRead.add {k : Class} (h : IsRead k) {ms : List Method} (hms : k.source.methods = .ok ms) :
    IsRead { k with methods := k.methods ++ ms } := by
  obtain ⟨hs, hnone | ⟨ms', rest, hms', hk, hrest⟩⟩ := h
  · exact ⟨hs, .inr ⟨ms, [], hms, by simp [hnone], by simp⟩⟩
  · obtain rfl := Except.ok.inj (hms'.symm.trans hms)
    refine ⟨hs, .inr ⟨ms', rest ++ ms', hms, by simp [hk], ?_⟩⟩
    simpa [or_imp, forall_and] using hrest

theorem mem_addMethods {name : String} {ms : List Method} {c : Catalog} {k : Class}
    (h : k ∈ c.addMethods name ms) :
    k ∈ c ∨ ∃ k', c.class? name = some k' ∧ k = { k' with methods := k'.methods ++ ms } := by
  induction c with
  | nil => simp [addMethods] at h
  | cons k' c ih =>
    rw [addMethods] at h
    by_cases hname : k'.name = name
    · rw [if_pos hname, List.mem_cons] at h
      rcases h with rfl | h
      · exact .inr ⟨k', by simp [class?, hname], rfl⟩
      · exact .inl (List.mem_cons_of_mem _ h)
    · rw [if_neg hname, List.mem_cons] at h
      rcases h with rfl | h
      · exact .inl List.mem_cons_self
      · rcases ih h with hmem | ⟨k'', hclass, rfl⟩
        · exact .inl (List.mem_cons_of_mem _ hmem)
        · exact .inr ⟨k'', by simpa [class?, hname] using hclass, rfl⟩

theorem addFile_isRead {c c' : Catalog} (h : ∀ k ∈ c, IsRead k) {path : String} {s : Source}
    (hs : s.IsParsed) (hadd : c.addFile path s = .ok c') : ∀ k ∈ c', IsRead k := by
  obtain ⟨ms, hms, hc'⟩ := bind_eq_ok.1 hadd
  obtain rfl := Except.ok.inj hc'
  have hall :
      ∀ k ∈ c ++ [{ name := classNameOf path, source := s, average := none, methods := [] }],
      IsRead k := by
    simpa [or_imp, forall_and] using ⟨h, hs, .inl rfl⟩
  intro k hk
  rcases mem_addMethods hk with hmem | ⟨k', hclass, rfl⟩
  · exact hall k hmem
  · rw [hclass] at hms
    exact (hall k' (List.mem_of_find?_eq_some hclass)).add hms

/-- In every class made from well-formed files, called names mean the first method of that name. -/
theorem resolves_of_ofFiles {files : List (String × Source)} (hs : ∀ f ∈ files, f.2.IsParsed)
    {c : Catalog} (h : ofFiles files = .ok c) : ∀ k ∈ c, k.Resolves := by
  have hfold : ∀ (fs : List (String × Source)) {c c' : Catalog}, (∀ f ∈ fs, f.2.IsParsed) →
      (∀ k ∈ c, IsRead k) → fs.foldlM (fun c f => c.addFile f.1 f.2) c = .ok c' →
      ∀ k ∈ c', IsRead k := by
    intro fs
    induction fs with
    | nil =>
      intro c c' _ hc h
      obtain rfl := Except.ok.inj h
      exact hc
    | cons f fs ih =>
      intro c c' hfs hc h
      rw [List.foldlM_cons] at h
      obtain ⟨mid, hmid, h⟩ := bind_eq_ok.1 h
      exact ih (fun f' hf' => hfs f' (by simp [hf'])) (addFile_isRead hc (hfs f (by simp)) hmid) h
  intro k hk
  exact (hfold _ (fun f hf => hs f (List.mem_filter.1 hf).1) (by simp) h k hk).resolves

end Catalog

end Assay
