import Assay.Proofs.Catalog.Effects

/-!
# The chain is the reachable set

In a class that was read from a file, the search for the chain of a method comes to its end,
whatever flags the methods bear, and finds each method once that is reached by one or more calls,
the method itself among them if it is on a cycle.
-/

namespace Assay

open Relation

namespace Class

variable {c : Class} {m : Method} {name : String}

theorem Resolves.flagged (h : c.Resolves) (f : Nat → Bool) : (c.flagged f).Resolves where
  declared name m hm := by
    have hsome : (c.method? name).isSome = true := by
      rw [← isSome_method?_flagged c f, hm]
      rfl
    obtain ⟨m', hm'⟩ := Option.isSome_iff_exists.1 hsome
    obtain ⟨i, -, hi⟩ := exists_index hm'
    obtain rfl := Option.some.inj ((hi f).symm.trans hm)
    exact h.declared name m' hm'
  readable m hm := by
    obtain ⟨i, hi, rfl⟩ := List.mem_mapIdx.1 hm
    exact h.readable c.methods[i] (List.getElem_mem hi)

theorem Resolves.reached_iff (h : c.Resolves) :
    (∃ m', c.method? name = some m' ∧ TransGen c.Calls m m') ↔
      ∃ m', TransGen c.Calls m m' ∧ m'.name = name := by
  constructor
  · rintro ⟨m', hm', hreach⟩
    exact ⟨m', hreach, name_of_method? hm'⟩
  · rintro ⟨m', hreach, rfl⟩
    exact ⟨m', (h.path_of_transGen hreach).1, hreach⟩

/-- In every class of parsed files, with any flags on its methods, the search for the chain of a
method ends. It finds no name twice, and it finds exactly the names of the methods that are reached
by one or more calls. -/
theorem chain_is_reachable_set {files : List (String × Source)}
    (hparsed : ∀ f ∈ files, f.2.IsParsed) {k : Catalog} (hk : Catalog.ofFiles files = .ok k)
    {c : Class} (hc : c ∈ k) (flags : Nat → Bool) {m : Method}
    (hm : m ∈ (c.flagged flags).methods) :
    ∃ names, (c.flagged flags).chain m = .ok names ∧ (c.flagged flags).Finds m names ∧ names.Nodup ∧
      ∀ name, name ∈ names ↔ ∃ m', TransGen (c.flagged flags).Calls m m' ∧ m'.name = name := by
  have h := (Catalog.resolves_of_ofFiles hparsed hk c hc).flagged flags
  obtain ⟨names, hchain, hfinds⟩ := h.chain_finds hm
  exact ⟨names, hchain, hfinds, hfinds.nodup h,
    fun name => (hfinds.mem_iff h name).trans h.reached_iff⟩

theorem callsOf_recursive {name called : String} {d call x : Node}
    (hd : recursiveFile.root.children.find? (Node.isNamed · name) = some d)
    (hcall : d.ofKinds ["method_invocation"] = [call]) (hx : call.child? "name" = some x)
    (hname : recursiveFile.textOf x = .ok called) (flags : Nat → Bool) :
    (recursive.flagged flags).callsOf name = .ok [called] := by
  have hdeclaration : recursiveFile.declaration name = .ok d := by
    rw [Source.declaration, ofKind_recursiveFile, hd]
  show (recursiveFile.declaration name >>= recursiveFile.calledNames) = _
  rw [hdeclaration, ok_bind, Source.calledNames_singleton hcall hx hname]

/-- Of two methods that call each other, each is in its own chain; a method that neither calls is
not. -/
theorem chain_of_mutual_recursion :
    ∃ m ∈ (recursive.flagged fun _ => false).methods, m.name = "a" ∧
      (recursive.flagged fun _ => false).chain m = .ok ["b", "a"] ∧
      (∃ m', TransGen (recursive.flagged fun _ => false).Calls m m' ∧ m'.name = "a") ∧
      ¬ ∃ m', TransGen (recursive.flagged fun _ => false).Calls m m' ∧ m'.name = "c" := by
  obtain ⟨m, hm⟩ : ∃ m, (recursive.flagged fun _ => false).methods[0]? = some m := ⟨_, rfl⟩
  have hname : m.name = "a" := by
    cases hm
    rfl
  have hchain : (recursive.flagged fun _ => false).chain m = .ok ["b", "a"] := by
    cases hm
    rw [chain, Source.calledNames_singleton rfl rfl rfl, ok_bind]
    refine (reach_visit rfl (by decide) (callsOf_recursive rfl rfl rfl rfl _) ?_).trans rfl
    refine (reach_visit rfl (by decide) (callsOf_recursive rfl rfl rfl rfl _) ?_).trans rfl
    exact reach_skip _ (by decide)
  obtain ⟨names, hnames, -, -, hiff⟩ := chain_is_reachable_set
    (List.forall_mem_singleton.2 isParsed_recursiveFile) ofFiles_recursive
      (List.mem_singleton_self _)
    (fun _ => false) (List.mem_of_getElem? hm)
  obtain rfl := Except.ok.inj (hnames.symm.trans hchain)
  exact ⟨m, List.mem_of_getElem? hm, hname, hchain, (hiff "a").1 (by simp),
    fun h => by simpa using (hiff "c").2 h⟩

end Class

end Assay
