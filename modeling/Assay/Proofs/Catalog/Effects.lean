import Assay.Proofs.Catalog.Parse

/-!
# Side effects are exact

A class is followed through both passes as the original class with flags put on its methods. The
second pass reads flags that it has partly overwritten, which does no harm: `Between` says that
every flag is set where the method's own code changes state, and only where the method has an
effect. Since what is reached from a reached method is reached, any such flags give the exact answer
for the method at hand, and setting it keeps them such flags. So the methods may be visited in any
order.
-/

namespace Assay

open Relation

namespace Node

/-- The tree of a node holds an expression that changes a variable. -/
def Changes (n : Node) : Prop :=
  ∃ x : Node, x.Within n ∧ (x.kind = "update_expression" ∨ x.kind = "assignment_expression")

mutual

theorem changesState_iff : ∀ n : Node, n.changesState = true ↔ n.Changes
  | ⟨kind, text, children, fields, start, stop, row, endRow⟩ => by
    rw [changesState, Bool.or_eq_true, anyChanges_iff children]
    constructor
    · rintro (hkind | ⟨c, hc, x, hx, hkind⟩)
      · exact ⟨_, .self _, by simpa [changingKinds] using hkind⟩
      · exact ⟨x, .child hc hx, hkind⟩
    · rintro ⟨x, hx, hkind⟩
      cases hx with
      | self => exact .inl (by simpa [changingKinds] using hkind)
      | child hc hx => exact .inr ⟨_, hc, x, hx, hkind⟩

theorem anyChanges_iff : ∀ cs : List Node, anyChanges cs = true ↔ ∃ c ∈ cs, c.Changes
  | [] => by simp [anyChanges]
  | c :: cs => by
    rw [anyChanges, Bool.or_eq_true, changesState_iff c, anyChanges_iff cs]
    simp

end

end Node

namespace Class

/-- A method has an effect if its own code changes a variable, or that of a method it reaches. -/
def HasEffect (c : Class) (m : Method) : Prop :=
  m.node.Changes ∨ ∃ m', TransGen c.Calls m m' ∧ m'.node.Changes

/-- The class with a flag on each method, by index. -/
def flagged (c : Class) (f : Nat → Bool) : Class :=
  { c with methods := c.methods.mapIdx fun i m => { m with changesState := f i } }

/-- The flag of the method at an index is that of its own code. -/
def withOwnEffect (c : Class) (i : Nat) : Class :=
  match c.methods[i]? with
  | none => c
  | some m => { c with methods := c.methods.set i { m with changesState := m.node.changesState } }

/-- Both passes, each with an order in which it visits the methods. -/
def withEffectsInOrder (first second : List Nat) (c : Class) : Except Fault Class :=
  second.foldlM withCallEffects (first.foldl withOwnEffect c)

variable {c : Class} {f g : Nat → Bool} {i : Nat} {m : Method}

theorem getElem?_flagged (c : Class) (f : Nat → Bool) (i : Nat) :
    (c.flagged f).methods[i]? = c.methods[i]?.map fun m => { m with changesState := f i } := by
  simp [flagged]

/-- A class that differs in its flags only. -/
theorem eq_flagged {ms : List Method}
    (h : ∀ i : Nat, ms[i]? = c.methods[i]?.map fun m => { m with changesState := f i }) :
    { c with methods := ms } = c.flagged f := by
  have hm : ms = (c.flagged f).methods := List.ext_getElem? fun i => by rw [h, getElem?_flagged]
  rw [hm]
  rfl

theorem flagged_congr (h : ∀ i m, c.methods[i]? = some m → f i = g i) :
    c.flagged f = c.flagged g := by
  refine eq_flagged fun i => ?_
  cases hi : c.methods[i]? with
  | none => simp [hi]
  | some m => simp [hi, h i m hi]

/-- A flag is set. -/
theorem set_flagged (hi : c.methods[i]? = some m) (b : Bool) :
    { c.flagged f with methods := (c.flagged f).methods.set i { m with changesState := b } } =
      c.flagged (Function.update f i b) := by
  refine eq_flagged (c := c) fun j => ?_
  rw [List.getElem?_set, getElem?_flagged]
  by_cases hj : i = j
  · subst hj
    have hlt : i < (c.flagged f).methods.length := by
      simpa [flagged] using (List.getElem?_eq_some_iff.1 hi).1
    simp [hlt, hi]
  · simp [hj, Function.update_of_ne (Ne.symm hj)]

/-- The first method of a name stands at one index, whatever the flags are. -/
theorem exists_index {name : String} (h : c.method? name = some m) :
    ∃ i, c.methods[i]? = some m ∧
      ∀ f, (c.flagged f).method? name = some { m with changesState := f i } := by
  obtain ⟨hname, i, hi, hm, hfirst⟩ := List.find?_eq_some_iff_getElem.1 h
  refine ⟨i, List.getElem?_eq_some_iff.2 ⟨hi, hm⟩, fun f => ?_⟩
  refine List.find?_eq_some_iff_getElem.2 ⟨hname, i, by simpa [flagged] using hi, ?_, ?_⟩
  · simp [flagged, hm]
  · intro j hj
    simpa [flagged] using hfirst j hj

theorem isSome_method?_flagged (c : Class) (f : Nat → Bool) (name : String) :
    ((c.flagged f).method? name).isSome = (c.method? name).isSome := by
  cases h : c.method? name with
  | some m =>
    obtain ⟨i, -, hf⟩ := exists_index h
    rw [hf f]
    rfl
  | none =>
    have hnone : (c.flagged f).method? name = none := by
      simp only [method?, List.find?_eq_none, flagged, List.mem_mapIdx] at h ⊢
      rintro _ ⟨j, hj, rfl⟩
      exact h c.methods[j] (List.getElem_mem hj)
    rw [hnone]

/-- Chains do not depend on flags. -/
theorem chain_flagged (f : Nat → Bool) (b : Bool) :
    (c.flagged f).chain { m with changesState := b } = c.chain m := by
  simp only [chain, isSome_method?_flagged]
  simp [flagged]

theorem chainChanges_eq (c : Class) {names : List String}
    (h : ∀ name ∈ names, (c.method? name).isSome) :
    ∃ b, c.chainChanges names = .ok b ∧
      (b = true ↔ ∃ name ∈ names, ∃ m, c.method? name = some m ∧ m.changesState = true) := by
  induction names with
  | nil => exact ⟨false, rfl, by simp⟩
  | cons name names ih =>
    obtain ⟨m, hm⟩ := Option.isSome_iff_exists.1 (h name (by simp))
    obtain ⟨b, hb, hiff⟩ := ih fun x hx => h x (by simp [hx])
    cases hflag : m.changesState with
    | true => exact ⟨true, by simp [chainChanges, hm, hflag], by simp [hm, hflag]⟩
    | false => exact ⟨b, by simp [chainChanges, hm, hflag, hb], by simp [hm, hflag, hiff]⟩

/-- Every flag is set where the method's own code changes state, and only where the method has an
effect. -/
def Between (c : Class) (f : Nat → Bool) : Prop :=
  ∀ i m, c.methods[i]? = some m → (m.node.Changes → f i = true) ∧ (f i = true → c.HasEffect m)

/-- The exact flag of the method at an index. -/
noncomputable def effect (c : Class) (i : Nat) : Bool :=
  open Classical in decide (∃ m, c.methods[i]? = some m ∧ c.HasEffect m)

theorem effect_iff (hi : c.methods[i]? = some m) : c.effect i = true ↔ c.HasEffect m := by
  simp [effect, hi]

theorem HasEffect.of_reached {m' : Method} (h : c.HasEffect m') (hreach : TransGen c.Calls m m') :
    c.HasEffect m := by
  rcases h with h | ⟨m'', hreach', h⟩
  · exact .inr ⟨m', hreach, h⟩
  · exact .inr ⟨m'', hreach.trans hreach', h⟩

/-- The second pass at a method sets its exact flag. -/
theorem withCallEffects_flagged (h : c.Resolves) (hf : c.Between f) (hi : c.methods[i]? = some m) :
    (c.flagged f).withCallEffects i = .ok (c.flagged (Function.update f i (c.effect i))) := by
  have hget : (c.flagged f).methods[i]? = some { m with changesState := f i } := by
    rw [getElem?_flagged, hi]
    rfl
  rw [withCallEffects, hget]
  cases hflag : f i with
  | true =>
    have hupdate : Function.update f i (c.effect i) = f := by
      rw [Function.update_eq_self_iff, hflag]
      exact (effect_iff hi).2 ((hf i m hi).2 hflag)
    simp [hupdate]
  | false =>
    obtain ⟨names, hchain, hnames⟩ := h.chain_eq (List.mem_of_getElem? hi)
    have hknown : ∀ name ∈ names, ((c.flagged f).method? name).isSome = true := by
      intro name hname
      obtain ⟨m', hm', -⟩ := (hnames name).1 hname
      rw [isSome_method?_flagged, hm']
      rfl
    obtain ⟨b, hb, hiff⟩ := (c.flagged f).chainChanges_eq hknown
    -- flags that are already exact are those of effects, which the method at hand then has as well
    have hexact : b = c.effect i := by
      rw [Bool.eq_iff_iff, effect_iff hi, hiff]
      constructor
      · rintro ⟨name, hname, m₁, hm₁, hset⟩
        obtain ⟨m', hm', hreach⟩ := (hnames name).1 hname
        obtain ⟨j, hj, hflagged⟩ := exists_index hm'
        obtain rfl := Option.some.inj ((hflagged f).symm.trans hm₁)
        exact ((hf j m' hj).2 hset).of_reached hreach
      · rintro (hown | ⟨m', hreach, hown⟩)
        · rw [(hf i m hi).1 hown] at hflag
          exact Bool.noConfusion hflag
        · have hm' := (h.path_of_transGen hreach).1
          obtain ⟨j, hj, hflagged⟩ := exists_index hm'
          exact ⟨m'.name, (hnames _).2 ⟨m', hm', hreach⟩, _, hflagged f, (hf j m' hj).1 hown⟩
    simp only [Bool.false_eq_true, if_false, chain_flagged, hchain, ok_bind, hb, pure_eq_ok]
    rw [set_flagged hi, hexact]

theorem Between.update (hf : c.Between f) (i : Nat) :
    c.Between (Function.update f i (c.effect i)) := by
  intro j m hj
  by_cases hij : j = i
  · subst hij
    rw [Function.update_self, effect_iff hj]
    exact ⟨.inl, id⟩
  · rw [Function.update_of_ne hij]
    exact hf j m hj

/-- The second pass over any methods sets the exact flag of each of them. -/
theorem foldlM_withCallEffects (h : c.Resolves) (hf : c.Between f) (order : List Nat)
    (hrange : ∀ i ∈ order, i < c.methods.length) :
    order.foldlM withCallEffects (c.flagged f) =
      .ok (c.flagged fun i => if i ∈ order then c.effect i else f i) := by
  induction order generalizing f with
  | nil => simp
  | cons i order ih =>
    have hi := List.getElem?_eq_getElem (hrange i (by simp))
    rw [List.foldlM_cons, withCallEffects_flagged h hf hi, ok_bind,
      ih (hf.update i) fun j hj => hrange j (by simp [hj])]
    refine congrArg Except.ok (flagged_congr fun j m _ => ?_)
    by_cases hji : j = i
    · simp [hji]
    · simp [hji]

/-- The flag that the own code of the method at an index gives. -/
def own (c : Class) (i : Nat) : Bool := (c.methods[i]?.map fun m => m.node.changesState).getD false

theorem own_eq (hi : c.methods[i]? = some m) : c.own i = m.node.changesState := by
  simp [own, hi]

theorem between_own (c : Class) : c.Between c.own := by
  intro i m hi
  rw [own_eq hi, Node.changesState_iff]
  exact ⟨id, .inl⟩

theorem withOwnEffect_flagged (hi : c.methods[i]? = some m) :
    (c.flagged f).withOwnEffect i = c.flagged (Function.update f i (c.own i)) := by
  rw [withOwnEffect, getElem?_flagged, hi, own_eq hi, ← set_flagged hi]
  rfl

/-- The first pass over any methods sets the own flag of each of them. -/
theorem foldl_withOwnEffect (order : List Nat) (hrange : ∀ i ∈ order, i < c.methods.length) :
    order.foldl withOwnEffect (c.flagged f) = c.flagged fun i => if i ∈ order then c.own i
      else f i := by
  induction order generalizing f with
  | nil => simp
  | cons i order ih =>
    have hi := List.getElem?_eq_getElem (hrange i (by simp))
    rw [List.foldl_cons, withOwnEffect_flagged hi, ih fun j hj => hrange j (by simp [hj])]
    refine flagged_congr fun j m _ => ?_
    by_cases hji : j = i
    · simp [hji]
    · simp [hji]

theorem withOwnEffects_eq (c : Class) : c.withOwnEffects = c.flagged c.own := by
  refine eq_flagged fun i => ?_
  cases hi : c.methods[i]? with
  | none => simp [hi]
  | some m => simp [hi, own_eq hi]

/-- The flags that a class has to begin with. -/
theorem exists_flagged (c : Class) : ∃ f, c = c.flagged f := by
  refine ⟨fun i => (c.methods[i]?.map Method.changesState).getD false, eq_flagged fun i => ?_⟩
  cases c.methods[i]? <;> rfl

/-- The first pass gives the own flags in any order. -/
theorem foldl_withOwnEffect_perm {order : List Nat} (h : order.Perm (List.range c.methods.length)) :
    order.foldl withOwnEffect c = c.withOwnEffects := by
  obtain ⟨f, hf⟩ := c.exists_flagged
  rw [withOwnEffects_eq, hf,
    foldl_withOwnEffect order fun i hi => List.mem_range.1 (h.mem_iff.1 hi), ← hf]
  refine flagged_congr fun i m hi => ?_
  rw [if_pos (h.mem_iff.2 (List.mem_range.2 (List.getElem?_eq_some_iff.1 hi).1))]

/-- Visiting the methods in any order gives the exact flags. -/
theorem withEffectsInOrder_eq (h : c.Resolves) {first second : List Nat}
    (hfirst : first.Perm (List.range c.methods.length))
    (hsecond : second.Perm (List.range c.methods.length)) :
    c.withEffectsInOrder first second = .ok (c.flagged c.effect) := by
  rw [withEffectsInOrder, foldl_withOwnEffect_perm hfirst, withOwnEffects_eq,
    foldlM_withCallEffects h c.between_own second fun i hi =>
      List.mem_range.1 (hsecond.mem_iff.1 hi)]
  refine congrArg Except.ok (flagged_congr fun i m hi => ?_)
  rw [if_pos (hsecond.mem_iff.2 (List.mem_range.2 (List.getElem?_eq_some_iff.1 hi).1))]

theorem withEffects_eq_inOrder (c : Class) :
    c.withEffects =
      c.withEffectsInOrder (List.range c.methods.length) (List.range c.methods.length) := by
  rw [withEffectsInOrder, foldl_withOwnEffect_perm (.refl _)]
  simp [withEffects, withOwnEffects]

/-- The analysis changes flags only, sets exactly those of the methods that have an effect, and does
so in whichever order each of its passes visits the methods. -/
theorem effects_exact_in_any_order (c : Class) (h : c.Resolves) :
    ∃ c', c.withEffects = .ok c' ∧ c' = { c with methods := c'.methods } ∧
      List.Forall₂ (fun m m' => m' = { m with changesState := m'.changesState } ∧
        (m'.changesState = true ↔ c.HasEffect m)) c.methods c'.methods ∧
      ∀ first second, first.Perm (List.range c.methods.length) →
        second.Perm (List.range c.methods.length) → c.withEffectsInOrder first second = .ok c' := by
  refine ⟨c.flagged c.effect, ?_, rfl, ?_, fun _ _ => withEffectsInOrder_eq h⟩
  · rw [withEffects_eq_inOrder, withEffectsInOrder_eq h (.refl _) (.refl _)]
  · refine List.forall₂_iff_get.2 ⟨by simp [flagged], fun i hi _ => ?_⟩
    have hget := List.getElem?_eq_getElem hi
    simp [flagged, effect_iff hget]

/-- Two methods that call each other, of which one changes a variable, and one that calls itself:
`void a(){b();} void b(){a();n++;} void c(){c();}`. -/
def recursiveFile : Source :=
  let name (text : String) (start : Nat) : Node :=
    ⟨"identifier", text, [], [], start, start + 1, 0, 0⟩
  let call (text : String) (start : Nat) : Node :=
    ⟨"method_invocation", text ++ "()", [name text start], [("name", 0)], start, start + 3, 0, 0⟩
  let method (text : String) (start : Nat) (body : List Node) : Node :=
    ⟨"method_declaration", "", name text (start + 5) :: body, [("name", 0)], start,
      start + 14, 0, 0⟩
  let update : Node := ⟨"update_expression", "n++", [], [], 28, 31, 0, 0⟩
  { text := "void a(){b();} void b(){a();n++;} void c(){c();}"
    root := ⟨"program", "", [method "a" 0 [call "b" 9], method "b" 15 [call "a" 24, update],
      method "c" 34 [call "c" 43]], [], 0, 48, 0, 0⟩ }

theorem isParsed_recursiveFile : recursiveFile.IsParsed where
  named d hd hkind := by
    rw [← Node.mem_all] at hd
    simp only [recursiveFile, Node.all, Node.allOf, List.cons_append, List.nil_append,
      List.mem_cons, List.not_mem_nil, or_false] at hd
    rcases hd with rfl | rfl | rfl | rfl | rfl | rfl | rfl | rfl | rfl | rfl | rfl | rfl | rfl | rfl
    all_goals first | exact absurd hkind (by decide) | exact ⟨_, rfl, rfl, rfl⟩
  called call x hin hkind hx := by
    rw [← Node.mem_all] at hin
    simp only [recursiveFile, Node.all, Node.allOf, List.cons_append, List.nil_append,
      List.mem_cons, List.not_mem_nil, or_false] at hin
    rcases hin with rfl | rfl | rfl | rfl | rfl | rfl | rfl | rfl | rfl | rfl | rfl |
      rfl | rfl | rfl
    all_goals first | exact absurd hkind (by decide) |
      (obtain rfl := Option.some.inj hx; exact ⟨_, rfl⟩)

/-- The class of the file. -/
def recursive : Class where
  name := "Recursive"
  source := recursiveFile
  average := none
  methods := recursiveFile.root.children.zipWith (fun n name =>
    { name, id := none, node := n, params := [], locals := [], assertions := [],
      changesState := false
      wrong := [] }) ["a", "b", "c"]

theorem ofKind_recursiveFile :
    recursiveFile.root.ofKind "method_declaration" = recursiveFile.root.children :=
  Node.ofKind_eq_ofKinds (by decide)

theorem methods_recursiveFile : recursiveFile.methods = .ok recursive.methods := by
  rw [Source.methods, ofKind_recursiveFile]
  exact mapM_eq_ok.2 (.cons (Source.methodOf_bare rfl rfl rfl rfl rfl)
    (.cons (Source.methodOf_bare rfl rfl rfl rfl rfl)
      (.cons (Source.methodOf_bare rfl rfl rfl rfl rfl) .nil)))

theorem ofFiles_recursive :
    Catalog.ofFiles [("jpamb/cases/Recursive.java", recursiveFile)] = .ok [recursive] := by
  have hfilter : [("jpamb/cases/Recursive.java", recursiveFile)].filter
      (fun f => f.1.startsWith Catalog.rootFolder && f.1.endsWith ".java") =
        [("jpamb/cases/Recursive.java", recursiveFile)] :=
    List.filter_cons_of_pos (by decide +kernel)
  have hadd : Catalog.addFile [] "jpamb/cases/Recursive.java" recursiveFile = .ok [recursive] := by
    show (recursiveFile.methods >>= _) = _
    rw [methods_recursiveFile]
    rfl
  rw [Catalog.ofFiles, hfilter, List.foldlM_cons, hadd]
  rfl

theorem effects_exact_recursive :
    recursive.Resolves ∧ ∃ c', recursive.withEffects = .ok c' ∧
      recursive.withEffectsInOrder [2, 0, 1] [1, 2, 0] = .ok c' := by
  have hfiles : ∀ f ∈ [("jpamb/cases/Recursive.java", recursiveFile)], f.2.IsParsed :=
    List.forall_mem_singleton.2 isParsed_recursiveFile
  have h :=
    Catalog.resolves_of_ofFiles hfiles ofFiles_recursive recursive (List.mem_singleton_self _)
  obtain ⟨c', hc', -, -, horder⟩ := effects_exact_in_any_order recursive h
  exact ⟨h, c', hc', horder _ _ (by decide) (by decide)⟩

end Class

end Assay
