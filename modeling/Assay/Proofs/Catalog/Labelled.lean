import Assay.Catalog.Syntactic
import Assay.Proofs.Catalog.Effects

/-!
# Assertions that cannot be labelled

The label of an assertion is decided by the calls in it, one after the other, until one is found
that changes state. Two kinds of calls end this in a fault: one without an object, if the class has
no method of its name, and one on a field that is reached from a parameter, since the fields of
other classes are not known. So an assertion gets a label exactly if no such call comes before the
first that changes state.
-/

namespace Assay

namespace Node

variable {n c x : Node} {field : String}

theorem mem_children_of_child? (h : n.child? field = some c) : c ∈ n.children := by
  obtain ⟨i, -, hi⟩ := Option.bind_eq_some_iff.1 h
  exact List.mem_of_getElem? hi

theorem within_of_child? (h : n.child? field = some c) : c.Within n :=
  .child (mem_children_of_child? h) (.self c)

theorem all_eq (n : Node) : n.all = n :: allOf n.children := by
  cases n
  rw [all]

theorem length_all_le_of_mem {cs : List Node} (h : c ∈ cs) : c.all.length ≤ (allOf cs).length := by
  induction cs with
  | nil => exact absurd h List.not_mem_nil
  | cons d cs ih =>
    rw [allOf, List.length_append]
    rcases List.mem_cons.1 h with rfl | h
    · omega
    · have := ih h
      omega

/-- The tree of a child is smaller. -/
theorem length_all_lt (h : n.child? field = some c) : c.all.length < n.all.length := by
  have hle := length_all_le_of_mem (mem_children_of_child? h)
  rw [n.all_eq, List.length_cons]
  omega

end Node

namespace Source

variable {s : Source} {n o : Node} {path : List String}

/-- What a parser promises of the tree of an expression: a call has a name, a field is that of an
object, and every node covers text. -/
structure Spells (s : Source) (n : Node) : Prop where
  text : ∀ x : Node, x.Within n → ∃ t, s.textOf x = .ok t
  call : ∀ x : Node, x.Within n → x.kind = "method_invocation" → ∃ name, x.child? "name" = some name
  access : ∀ x : Node, x.Within n → x.kind = "field_access" →
    ∃ object field, x.child? "object" = some object ∧ x.child? "field" = some field

theorem Spells.within (h : s.Spells n) (ho : o.Within n) : s.Spells o where
  text x hx := h.text x (hx.trans ho)
  call x hx := h.call x (hx.trans ho)
  access x hx := h.access x (hx.trans ho)

/-- The promise can be checked. -/
def spells (s : Source) (n : Node) : Bool :=
  n.all.all fun x => (s.textOf x).toOption.isSome &&
    (x.kind != "method_invocation" || (x.child? "name").isSome) &&
    (x.kind != "field_access" || ((x.child? "object").isSome && (x.child? "field").isSome))

theorem spells_iff : s.spells n = true ↔ s.Spells n := by
  simp only [spells, List.all_eq_true, Node.mem_all, Bool.and_eq_true, Bool.or_eq_true,
    bne_iff_ne, ne_eq, Option.isSome_iff_exists, ← imp_iff_not_or]
  constructor
  · intro h
    refine ⟨fun x hx => ?_, fun x hx hkind => (h x hx).1.2 hkind, fun x hx hkind => ?_⟩
    · obtain ⟨t, ht⟩ := (h x hx).1.1
      cases htext : s.textOf x with
      | error f => simp [htext, Except.toOption] at ht
      | ok t => exact ⟨t, rfl⟩
    · obtain ⟨⟨o, ho⟩, f, hf⟩ := (h x hx).2 hkind
      exact ⟨o, f, ho, hf⟩
  · intro h x hx
    obtain ⟨t, ht⟩ := h.text x hx
    refine ⟨⟨⟨t, by simp [ht, Except.toOption]⟩, h.call x hx⟩, fun hkind => ?_⟩
    obtain ⟨o, f, ho, hf⟩ := h.access x hx hkind
    exact ⟨⟨o, ho⟩, f, hf⟩

instance : Decidable (s.Spells n) := decidable_of_iff _ spells_iff

/-- The names that lead to an object: the text of an expression, and the fields that are taken from
there. -/
inductive Leads (s : Source) : Node → List String → Prop
  | self {n : Node} {t : String} (hkind : n.kind ≠ "field_access")
      (ht : s.textOf n = .ok t) : Leads s n [t]
  | field {n o f : Node} {path : List String} {t : String} (hkind : n.kind = "field_access")
      (ho : n.child? "object" = some o) (hf : n.child? "field" = some f) (h : Leads s o path)
      (ht : s.textOf f = .ok t) : Leads s n (path ++ [t])

theorem Leads.ne_nil (h : s.Leads n path) : path ≠ [] := by
  cases h <;> simp

theorem Spells.exists_leads (h : s.Spells n) : ∃ path, s.Leads n path := by
  induction hsize : n.all.length using Nat.strongRecOn generalizing n with
  | _ size ih =>
    by_cases hkind : n.kind = "field_access"
    · obtain ⟨o, f, ho, hf⟩ := h.access n (.self n) hkind
      obtain ⟨t, ht⟩ := h.text f (Node.within_of_child? hf)
      obtain ⟨path, hpath⟩ :=
        ih o.all.length (hsize ▸ Node.length_all_lt ho) (h.within (Node.within_of_child? ho)) rfl
      exact ⟨path ++ [t], .field hkind ho hf hpath ht⟩
    · obtain ⟨t, ht⟩ := h.text n (.self n)
      exact ⟨[t], .self hkind ht⟩

end Source

namespace Call

variable {s : Source} {n : Node} {path : List String}

/-- The chain of an object is the path to it. -/
theorem chainOf_of_leads (h : s.Leads n path) {fuel : Nat} (hfuel : n.all.length ≤ fuel) :
    chainOf s fuel n = .ok path := by
  induction h generalizing fuel with
  | @self n t hkind ht =>
    cases fuel <;> simp [chainOf, hkind, ht]
  | @field n o f path t hkind ho hf _ ht ih =>
    have hlt := Node.length_all_lt ho
    obtain ⟨fuel, rfl⟩ : ∃ fuel', fuel = fuel' + 1 := ⟨fuel - 1, by omega⟩
    simp [chainOf, hkind, ho, hf, ht, ih (show o.all.length ≤ fuel by omega)]

/-- A call at which labelling ends in a fault. -/
inductive Stuck (k : Class) (m : Method) (call : Node) : Fault → Prop
  /-- The method is called without an object, and the class has none of its name. -/
  | unqualified {x : Node} {name : String} (hx : call.child? "name" = some x)
      (hname : k.source.textOf x = .ok name) (hobject : call.child? "object" = none)
      (hmethod : k.method? name = none) :
      Stuck k m call (.outOfRange "list index out of range")
  /-- The object is a field that is reached from a parameter. -/
  | field {o : Node} {v : Variable} {path : List String} (hobject : call.child? "object" = some o)
      (hpath : k.source.Leads o (v.name :: path)) (hfield : path ≠ []) (hv : v ∈ m.params) :
      Stuck k m call (.noMember "'Classes' object has no attribute 'map'")

/-- The method that a call means: the one of the class itself, or else the one of the class of the
variable that it is called on. -/
inductive Means (c : Catalog) (k : Class) (m : Method) (call : Node) : Method → Prop
  | own {x : Node} {name : String} {callee : Method} (hx : call.child? "name" = some x)
      (hname : k.source.textOf x = .ok name) (hmethod : k.method? name = some callee) :
        Means c k m call callee
  | other {x o : Node} {name v t : String} {path : List String} {k' : Class} {callee : Method}
      (hx : call.child? "name" = some x) (hname : k.source.textOf x = .ok name)
      (hmethod : k.method? name = none) (hobject : call.child? "object" = some o)
      (hpath : k.source.Leads o (v :: path)) (hv : variableType? v m.params m.locals = some t)
      (hclass : c.class? t = some k') (hmethod' : k'.method? name = some callee) :
        Means c k m call callee

/-- A call changes state if the method that it means does. -/
def HasEffect (c : Catalog) (k : Class) (m : Method) (call : Node) : Prop :=
  ∃ callee, Means c k m call callee ∧ callee.changesState = true

section Resolving

variable {c : Catalog} {k : Class} {m : Method} {call : Node} {f : Fault} {name first : String}

/-- Only parameters of a method that was read from a file have a known type. -/
theorem typeOf?_eq_none (hm : m.localTypes = none) (hk : k.fieldTypes = none) :
    typeOf? m k name = none ↔ ∀ v ∈ m.params, v.name ≠ name := by
  simp only [typeOf?, hm, hk, Option.bind_none]
  cases hfind : m.params.find? fun p => p.name = name with
  | none => simpa using hfind
  | some p =>
    have hp := List.find?_some hfind
    have hmem := List.mem_of_find?_eq_some hfind
    simp only [reduceCtorEq, false_iff, not_forall]
    exact ⟨p, hmem, not_not.2 (by simpa using hp)⟩

/-- Fields cannot be followed from a parameter. -/
theorem resolve_of_field {v : Variable} (hv : v ∈ m.params) (hm : m.localTypes = none)
    (hk : k.fieldTypes = none) (hpath : path ≠ []) :
    resolve none m k (v.name :: path) =
      .error (.noMember "'Classes' object has no attribute 'map'") := by
  have hsome : typeOf? m k v.name ≠ none := fun h => (typeOf?_eq_none hm hk).1 h v hv rfl
  obtain ⟨t, ht⟩ := Option.ne_none_iff_exists'.1 hsome
  obtain ⟨segment, rest, rfl⟩ := List.exists_cons_of_ne_nil hpath
  rw [resolve, ht]
  rfl

theorem exists_resolve (hm : m.localTypes = none) (hk : k.fieldTypes = none)
    (h : path = [] ∨ ∀ v ∈ m.params, v.name ≠ first) :
    ∃ t, resolve none m k (first :: path) = .ok t := by
  rcases h with rfl | h
  · rw [resolve]
    cases typeOf? m k first with
    | none => exact ⟨_, rfl⟩
    | some t => exact ⟨_, rfl⟩
  · rw [resolve, (typeOf?_eq_none hm hk).2 h]
    exact ⟨_, rfl⟩

theorem leads_unique {path' : List String} (h : s.Leads n path) (h' : s.Leads n path') :
    path = path' :=
  Except.ok.inj ((chainOf_of_leads h (Nat.le_refl _)).symm.trans
    (chainOf_of_leads h' (Nat.le_refl _)))

variable {x o : Node} {callee : Method} {known : Option Catalog}

theorem ofNode_unqualified (hx : n.child? "name" = some x) (hname : s.textOf x = .ok name)
    (hobject : n.child? "object" = none) : ofNode known s m k n = .ok ⟨name, name, [], none⟩ := by
  simp [ofNode, hx, hname, hobject]

theorem ofNode_qualified (hx : n.child? "name" = some x) (hname : s.textOf x = .ok name)
    (hobject : n.child? "object" = some o) (hpath : s.Leads o path) :
    ofNode known s m k n = (resolve known m k path).map fun t =>
      ⟨".".intercalate (path ++ [name]), name, path, t⟩ := by
  simp only [ofNode, hx, hname, hobject, ok_bind, chainOf_of_leads hpath (Nat.le_refl _)]
  cases resolve known m k path <;> rfl

theorem Stuck.unique {f' : Fault} (h : Stuck k m call f) (h' : Stuck k m call f') : f = f' := by
  cases h <;> cases h' <;> simp_all

/-- A call of a method of the class means that method. -/
theorem means_own_iff {callee' : Method} (hx : call.child? "name" = some x)
    (hname : k.source.textOf x = .ok name) (hmethod : k.method? name = some callee) :
    Means c k m call callee' ↔ callee' = callee := by
  constructor
  · intro h
    cases h <;> simp_all
  · rintro rfl
    exact .own hx hname hmethod

/-- A call of another method means the one of the class of the variable. -/
theorem means_other_iff (hx : call.child? "name" = some x) (hname : k.source.textOf x = .ok name)
    (hmethod : k.method? name = none) (hobject : call.child? "object" = some o)
    (hpath : k.source.Leads o (first :: path)) : Means c k m call callee ↔
      (do (← c.class? (← variableType? first m.params m.locals)).method? name) = some callee := by
  constructor
  · intro h
    cases h with
    | own hx' hname' hmethod' => simp_all
    | other hx' hname' _ hobject' hpath' hv hclass hmethod' =>
      obtain rfl := Option.some.inj (hx.symm.trans hx')
      obtain rfl := Except.ok.inj (hname.symm.trans hname')
      obtain rfl := Option.some.inj (hobject.symm.trans hobject')
      obtain ⟨rfl, rfl⟩ := List.cons.inj (leads_unique hpath hpath')
      simp [hv, hclass, hmethod']
  · intro h
    obtain ⟨t, ht, h⟩ := Option.bind_eq_some_iff.1 h
    obtain ⟨k', hclass, hmethod'⟩ := Option.bind_eq_some_iff.1 h
    exact .other hx hname hmethod hobject hpath ht hclass hmethod'

end Resolving

end Call

namespace Catalog

open Call

variable {c : Catalog} {k : Class} {m : Method} {call : Node} {f : Fault}

section Outcomes

variable {x o : Node} {first : String} {rest : List String} {callee : Method} {i : Call}

/-- A call of a method of the class tells whether that method changes state. -/
theorem callChanges_own (hcall : ofNode none k.source m k call = .ok i)
    (hx : call.child? "name" = some x) (hname : k.source.textOf x = .ok i.methodName)
    (hmethod : k.method? i.methodName = some callee) :
    ∃ b, callChanges c k m call = .ok b ∧ (b = true ↔ HasEffect c k m call) := by
  refine ⟨callee.changesState, ?_, ?_⟩
  · rw [callChanges, hcall, ok_bind, hmethod]
    rfl
  · simp [HasEffect, means_own_iff hx hname hmethod]

/-- A call of another method looks for it in the class of the first name before the object. -/
theorem callChanges_other (hcall : ofNode none k.source m k call = .ok i)
    (hx : call.child? "name" = some x) (hname : k.source.textOf x = .ok i.methodName)
    (hmethod : k.method? i.methodName = none) (hobject : call.child? "object" = some o)
    (hpath : k.source.Leads o (first :: rest)) (hchain : i.chain = first :: rest) :
    ∃ b, callChanges c k m call = .ok b ∧ (b = true ↔ HasEffect c k m call) := by
  have hmeans : ∀ callee, Means c k m call callee ↔ _ := fun callee =>
    means_other_iff hx hname hmethod hobject hpath
  simp only [callChanges, hcall, ok_bind, hmethod, hchain, HasEffect, hmeans]
  cases (do (← c.class? (← variableType? first m.params m.locals)).method? i.methodName) with
  | none => exact ⟨false, rfl, by simp⟩
  | some callee => exact ⟨callee.changesState, rfl, by simp⟩

/-- A call on an object is stuck only if the object is a field that is reached from a parameter. -/
theorem not_stuck_of_leads (hobject : call.child? "object" = some o)
    (hpath : k.source.Leads o (first :: rest))
    (hpass : rest = [] ∨ ∀ v ∈ m.params, v.name ≠ first) : ¬ Stuck k m call f := by
  intro hf
  cases hf with
  | unqualified _ _ hnone _ => cases hobject.symm.trans hnone
  | field hobject' hpath' hfields hv =>
    obtain rfl := Option.some.inj (hobject.symm.trans hobject')
    obtain ⟨rfl, rfl⟩ := List.cons.inj (leads_unique hpath hpath')
    exact hpass.elim hfields fun h => h _ hv rfl

/-- A call ends labelling in its fault, or it tells whether the method that it means changes
state. -/
theorem callChanges_cases (hs : k.source.Spells call) (hkind : call.kind = "method_invocation")
    (hm : m.localTypes = none) (hk : k.fieldTypes = none) :
    (∃ f, Stuck k m call f ∧ callChanges c k m call = .error f) ∨
      (∀ f, ¬ Stuck k m call f) ∧
        ∃ b, callChanges c k m call = .ok b ∧ (b = true ↔ HasEffect c k m call) := by
  obtain ⟨x, hx⟩ := hs.call call (.self call) hkind
  obtain ⟨name, hname⟩ := hs.text x (Node.within_of_child? hx)
  cases hobject : call.child? "object" with
  | none =>
    have hcall : ofNode none k.source m k call = .ok ⟨name, name, [], none⟩ :=
      ofNode_unqualified hx hname hobject
    cases hmethod : k.method? name with
    | none =>
      refine .inl ⟨_, .unqualified hx hname hobject hmethod, ?_⟩
      rw [callChanges, hcall, ok_bind, hmethod]
    | some callee =>
      refine .inr ⟨fun f hf => ?_, callChanges_own hcall hx hname hmethod⟩
      cases hf <;> simp_all
  | some o =>
    obtain ⟨path, hpath⟩ := (hs.within (Node.within_of_child? hobject)).exists_leads
    obtain ⟨first, rest, rfl⟩ := List.exists_cons_of_ne_nil hpath.ne_nil
    have hcall : ofNode none k.source m k call = (resolve none m k (first :: rest)).map fun t =>
        ⟨".".intercalate (first :: rest ++ [name]), name, first :: rest, t⟩ :=
      ofNode_qualified hx hname hobject hpath
    by_cases hfield : rest ≠ [] ∧ ∃ v ∈ m.params, v.name = first
    · obtain ⟨hrest, v, hv, rfl⟩ := hfield
      refine .inl ⟨_, .field hobject hpath hrest hv, ?_⟩
      rw [callChanges, hcall, resolve_of_field hv hm hk hrest]
      rfl
    · have hpass : rest = [] ∨ ∀ v ∈ m.params, v.name ≠ first := by
        rw [not_and_or, not_not] at hfield
        exact hfield.imp_right fun h v hv he => h ⟨v, hv, he⟩
      obtain ⟨t, ht⟩ := exists_resolve hm hk hpass
      rw [ht] at hcall
      refine .inr ⟨fun f => not_stuck_of_leads hobject hpath hpass, ?_⟩
      cases hmethod : k.method? name with
      | some callee => exact callChanges_own hcall hx hname hmethod
      | none => exact callChanges_other hcall hx hname hmethod hobject hpath rfl

end Outcomes

section Calls

variable (hs : k.source.Spells call) (hkind : call.kind = "method_invocation")
  (hm : m.localTypes = none) (hk : k.fieldTypes = none)

include hs hkind hm hk

theorem callChanges_eq_error : callChanges c k m call = .error f ↔ Stuck k m call f := by
  rcases callChanges_cases (c := c) hs hkind hm hk with ⟨f', hstuck, hcall⟩ | ⟨hnot, b, hcall, -⟩
  · rw [hcall, Except.error.injEq]
    exact ⟨fun h => h ▸ hstuck, fun h => hstuck.unique h⟩
  · rw [hcall]
    exact iff_of_false nofun (hnot f)

theorem callChanges_eq_false :
    callChanges c k m call = .ok false ↔ ¬ HasEffect c k m call ∧ ∀ f, ¬ Stuck k m call f := by
  rcases callChanges_cases (c := c) hs hkind hm hk with ⟨f', hstuck, hcall⟩ | ⟨hnot, b, hcall, hiff⟩
  · rw [hcall]
    exact iff_of_false nofun fun h => h.2 f' hstuck
  · rw [hcall, ← hiff]
    simp [hnot]

end Calls

/-- The first element that is none of those passed over is the head of a list, or it is that of the
rest. -/
theorem exists_first_cons {α : Type} {P Q : α → Prop} {y : α} {ys : List α} :
    (∃ before x after, y :: ys = before ++ x :: after ∧ (∀ z ∈ before, P z) ∧ Q x) ↔
      Q y ∨ P y ∧ ∃ before x after, ys = before ++ x :: after ∧ (∀ z ∈ before, P z) ∧ Q x := by
  constructor
  · rintro ⟨before, x, after, hys, hbefore, hx⟩
    cases before with
    | nil =>
      obtain ⟨rfl, -⟩ := List.cons.inj hys
      exact .inl hx
    | cons z before =>
      obtain ⟨rfl, rfl⟩ := List.cons.inj hys
      obtain ⟨hz, hbefore⟩ := List.forall_mem_cons.1 hbefore
      exact .inr ⟨hz, before, x, after, rfl, hbefore, hx⟩
  · rintro (hy | ⟨hy, before, x, after, rfl, hbefore, hx⟩)
    · exact ⟨[], y, ys, rfl, List.forall_mem_nil _, hy⟩
    · exact ⟨y :: before, x, after, rfl, List.forall_mem_cons.2 ⟨hy, hbefore⟩, hx⟩

/-- Calls are looked at in turn until one changes state. -/
theorem anyCallChanges_eq_error {calls : List Node} : anyCallChanges c k m calls = .error f ↔
    ∃ before call after, calls = before ++ call :: after ∧
      (∀ x ∈ before, callChanges c k m x = .ok false) ∧
      callChanges c k m call = .error f := by
  induction calls with
  | nil =>
    refine iff_of_false nofun ?_
    rintro ⟨before, call, after, h, -⟩
    simp at h
  | cons first calls ih =>
    rw [anyCallChanges, exists_first_cons, ← ih]
    cases callChanges c k m first with
    | error g => simp
    | ok b => cases b <;> simp

/-- What a parser makes of files: the types of local variables and fields are not known by name, and
the assertions of a class stand in its file. -/
structure IsParsed (c : Catalog) : Prop where
  fieldTypes : ∀ k ∈ c, k.fieldTypes = none
  localTypes : ∀ k ∈ c, ∀ m ∈ k.methods, m.localTypes = none
  spells : ∀ k ∈ c, ∀ m ∈ k.methods, ∀ a ∈ m.assertions, k.source.Spells a.node

/-- Labelling an assertion ends in a fault: it changes nothing itself, and the first of its calls
that changes state or is stuck is stuck. -/
def FailsAt (c : Catalog) (k : Class) (m : Method) (a : Assertion) (f : Fault) : Prop :=
  ¬ a.node.Changes ∧ ∃ before call after, a.node.ofKinds ["method_invocation"] =
    before ++ call :: after ∧
    (∀ x ∈ before, ¬ HasEffect c k m x ∧ ∀ g, ¬ Stuck k m x g) ∧ Stuck k m call f

theorem labelByForm_mem {a : Assertion} {label : String} (h : labelByForm c k m a = .ok label) :
    label ∈ ["side_effect", "useless", unclassified] := by
  have hpure : ∀ {l : String}, l ∈ ["side_effect", "useless", unclassified] →
      pure l = Except.ok (ε := Fault) label →
      label ∈ ["side_effect", "useless", unclassified] := fun hl h => Except.ok.inj h ▸ hl
  rw [labelByForm] at h
  split at h
  · exact hpure (by simp) h
  · obtain ⟨changes, -, h⟩ := bind_eq_ok.1 h
    split at h
    · exact hpure (by simp) h
    · split at h <;> exact hpure (by simp) h

theorem labelByForm_eq_error {a : Assertion} (hs : k.source.Spells a.node)
    (hm : m.localTypes = none) (hk : k.fieldTypes = none) :
    labelByForm c k m a = .error f ↔ FailsAt c k m a f := by
  have hcalls : ∀ x ∈ a.node.ofKinds ["method_invocation"], k.source.Spells x ∧
      x.kind = "method_invocation" := by
    intro x hx
    obtain ⟨hall, hkind⟩ := List.mem_filter.1 hx
    exact ⟨hs.within ((Node.mem_all _).1 hall), by simpa using hkind⟩
  have hfirst : anyCallChanges c k m (a.node.ofKinds ["method_invocation"]) = .error f ↔
      ∃ before call after, a.node.ofKinds ["method_invocation"] = before ++ call :: after ∧
        (∀ x ∈ before, ¬ HasEffect c k m x ∧ ∀ g, ¬ Stuck k m x g) ∧ Stuck k m call f := by
    rw [anyCallChanges_eq_error]
    refine exists_congr fun before => exists_congr fun call => exists_congr fun after =>
      and_congr_right fun heq => ?_
    rw [heq] at hcalls
    refine and_congr (forall₂_congr fun x hx => ?_) ?_
    · obtain ⟨hx, hkind⟩ := hcalls x (List.mem_append_left _ hx)
      exact callChanges_eq_false hx hkind hm hk
    · obtain ⟨hx, hkind⟩ := hcalls call (by simp)
      exact callChanges_eq_error hx hkind hm hk
  rw [FailsAt, ← hfirst, ← Node.changesState_iff, labelByForm]
  cases a.node.changesState with
  | true => simp
  | false =>
    cases anyCallChanges c k m (a.node.ofKinds ["method_invocation"]) with
    | error g => simp
    | ok b =>
      cases b with
      | true => simp
      | false =>
        simp only [Bool.false_eq_true, if_false, ok_bind]
        split <;> simp

/-- An assertion of a catalog that was read from files gets one of three labels, unless the first of
its calls that changes state or is stuck is stuck; then the fault is that of this call. -/
theorem labelled_unless_stuck {a : Assertion} (hc : c.IsParsed) (hk : k ∈ c) (hm : m ∈ k.methods)
    (ha : a ∈ m.assertions) :
    ((∃ label ∈ ["side_effect", "useless", unclassified], labelByForm c k m a = .ok label) ↔
      ∀ f, ¬ FailsAt c k m a f) ∧ ∀ f, labelByForm c k m a = .error f ↔ FailsAt c k m a f := by
  have herror : ∀ f, labelByForm c k m a = .error f ↔ FailsAt c k m a f := fun f =>
    labelByForm_eq_error (hc.spells k hk m hm a ha) (hc.localTypes k hk m hm) (hc.fieldTypes k hk)
  refine ⟨?_, herror⟩
  constructor
  · rintro ⟨label, -, hlabel⟩ f hf
    cases hlabel.symm.trans ((herror f).2 hf)
  · intro hnot
    cases hlabel : labelByForm c k m a with
    | error f => exact absurd ((herror f).1 hlabel) (hnot f)
    | ok label => exact ⟨label, labelByForm_mem hlabel, rfl⟩

/-- Three assertions on calls: on a variable, on a field of a variable, and without an object. -/
def callsText : String :=
  "class A { void f(B b) { assert b.get(); assert b.c.get(); assert ok(); } }"

/-- The tree of a word in the file. -/
def wordNode (kind text : String) (start : Nat) : Node :=
  ⟨kind, text, [], [], start, start + text.length, 0, 0⟩

/-- The tree of an assertion that is a call, from the node of its object if it has one. -/
def assertCall (start : Nat) (object : List Node) (name : String) (nameStart : Nat) : Assertion :=
  let callee := wordNode "identifier" name nameStart
  let call : Node := ⟨"method_invocation", "", object ++ [callee], ("name", object.length) ::
    (object.map fun _ => ("object", 0)), start + 7, nameStart + name.length + 2, 0, 0⟩
  ⟨⟨"assert_statement", "", [call], [], start, nameStart + name.length + 3, 0, 0⟩, 0,
    0, unclassified⟩

def onVariable : Assertion := assertCall 24 [wordNode "identifier" "b" 31] "get" 33

def onField : Assertion :=
  assertCall 40
    [⟨"field_access", "b.c", [wordNode "identifier" "b" 47, wordNode "identifier" "c" 49],
    [("object", 0), ("field", 1)], 47, 50, 0, 0⟩] "get" 51

def onNothing : Assertion := assertCall 58 [] "ok" 65

def caller : Method where
  name := "f"
  id := none
  node :=
    ⟨"method_declaration", "", [onVariable.node, onField.node, onNothing.node], [], 10, 72, 0, 0⟩
  params := [⟨"b", "B"⟩]
  locals := []
  assertions := [onVariable, onField, onNothing]
  changesState := false
  wrong := []

def callerClass : Class where
  name := "A"
  source := ⟨callsText, ⟨"program", "", [caller.node], [], 0, 74, 0, 0⟩⟩
  average := none
  methods := [caller]

/-- The class of the variable. Its method changes state. -/
def calleeClass : Class where
  name := "B"
  source := ⟨"class B { int get() { return n++; } }", ⟨"program", "", [], [], 0, 37, 0, 0⟩⟩
  average := none
  methods := [{
    name := "get", id := none, params := [], locals := [], assertions := [],
    changesState := true, wrong := []
    node := ⟨"method_declaration", "", [wordNode "update_expression" "n++" 29], [], 10, 35, 0, 0⟩ }]

theorem isParsed_callers : IsParsed [callerClass, calleeClass] where
  fieldTypes := by simp [callerClass, calleeClass]
  localTypes := by simp [callerClass, calleeClass, caller]
  spells := by
    have h : ∀ a ∈ caller.assertions, callerClass.source.Spells a.node := by decide +kernel
    simpa [callerClass, calleeClass] using h

theorem labelled_on_variable :
    IsParsed [callerClass, calleeClass] ∧ onVariable ∈ caller.assertions ∧
      labelByForm [callerClass, calleeClass] callerClass caller onVariable = .ok "side_effect" ∧
      ∀ f, ¬ FailsAt [callerClass, calleeClass] callerClass caller onVariable f := by
  have hk : callerClass ∈ [callerClass, calleeClass] := by simp
  have hm : caller ∈ callerClass.methods := by simp [callerClass]
  have ha : onVariable ∈ caller.assertions := by simp [caller]
  have hlabel : labelByForm [callerClass, calleeClass] callerClass caller onVariable =
      .ok "side_effect" := rfl
  exact ⟨isParsed_callers, ha, hlabel,
    (labelled_unless_stuck isParsed_callers hk hm ha).1.1 ⟨_, by simp, hlabel⟩⟩

/-- Both kinds of stuck calls occur, so labelling fails. -/
theorem stuck_calls_fail :
    labelByForm [callerClass, calleeClass] callerClass caller onField =
        .error (.noMember "'Classes' object has no attribute 'map'") ∧
      labelByForm [callerClass, calleeClass] callerClass caller onNothing =
        .error (.outOfRange "list index out of range") ∧
      ¬ ∀ (c : Catalog) (k : Class) (m : Method) (a : Assertion), c.IsParsed → k ∈ c →
        m ∈ k.methods →
        a ∈ m.assertions → ∃ label ∈ ["side_effect", "useless", unclassified],
          labelByForm c k m a = .ok label := by
  have hnothing : labelByForm [callerClass, calleeClass] callerClass caller onNothing =
      .error (.outOfRange "list index out of range") := rfl
  refine ⟨rfl, hnothing, fun h => ?_⟩
  obtain ⟨label, -, hlabel⟩ :=
    h [callerClass, calleeClass] callerClass caller onNothing isParsed_callers (by simp)
    (by simp [callerClass]) (by simp [caller])
  cases hlabel.symm.trans hnothing

end Catalog

end Assay
