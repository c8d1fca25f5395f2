import Assay.Proofs.Lines
import Assay.Suite.Methods

/-!
# Looking methods up by name

A method is looked up by the first line of the list that contains its name, be it in the name of
another method, of a class or of a type. That line bears the name itself unless a line that does
not stands before all lines that do; only then a method gets the identifier of another one.
-/

namespace Assay

/-! ### Two searches in one list -/

section Find

variable {α : Type} {p q : α → Bool} {xs : List α}

/-- The narrower search passes over all that the wider one passes over. -/
theorem eq_false_of_passed (hpq : ∀ x, q x = true → p x = true) {y : α} (hy : (!p y) = true) :
    q y = false := by
  rw [Bool.not_eq_true'] at hy
  exact Bool.eq_false_iff.2 fun hq => Bool.eq_false_iff.1 hy (hpq y hq)

/-- A search for less finds the same, unless what it finds is not enough. -/
theorem find?_eq_find?_iff (hpq : ∀ x, q x = true → p x = true) :
    xs.find? p = xs.find? q ↔ ∀ x, xs.find? p = some x → q x = true := by
  constructor
  · intro h x hx
    exact List.find?_some (h ▸ hx)
  · intro h
    cases hp : xs.find? p with
    | none =>
      refine (List.find?_eq_none.2 fun x hx hq => ?_).symm
      exact List.find?_eq_none.1 hp x hx (hpq x hq)
    | some x =>
      obtain ⟨-, before, after, hxs, hbefore⟩ := List.find?_eq_some_iff_append.1 hp
      refine (List.find?_eq_some_iff_append.2 ⟨h x hp, before, after, hxs, fun y hy => ?_⟩).symm
      rw [eq_false_of_passed hpq (hbefore y hy), Bool.not_false]

/-- What is found is not enough exactly if something of that kind stands before all that is. -/
theorem exists_find?_not_iff (hpq : ∀ x, q x = true → p x = true) :
    (∃ x, xs.find? p = some x ∧ q x = false) ↔
      ∃ before x after,
        xs = before ++ x :: after ∧ p x = true ∧ q x = false ∧ ∀ y ∈ before, q y = false := by
  constructor
  · rintro ⟨x, hx, hq⟩
    obtain ⟨hp, before, after, hxs, hbefore⟩ := List.find?_eq_some_iff_append.1 hx
    exact ⟨before, x, after, hxs, hp, hq, fun y hy => eq_false_of_passed hpq (hbefore y hy)⟩
  · rintro ⟨before, x, after, rfl, hp, hq, hbefore⟩
    rw [List.find?_append]
    cases hfind : before.find? p with
    | none => exact ⟨x, by simp [hp], hq⟩
    | some y => exact ⟨y, rfl, hbefore y (List.mem_of_find?_eq_some hfind)⟩

end Find

namespace Suite

/-- The lines of a method list. -/
def listed (list : String) : List String := (Text.feedLines list).map Text.trim

/-- The method named on a line: what stands between the last point before `:(` and the colon. -/
def nameOn? (line : String) : Option String := do
  let (front, _) ← Text.cutAtWord? [':', '('] line.toList
  let (_, name) ← Text.cutAtLast? '.' front
  return String.ofList name

/-- A line of the form `owner.name:(params)ret`. -/
structure Entry where
  owner : String
  name : String
  params : String
  ret : String
  owner_plain : ':' ∉ owner.toList
  name_plain : ':' ∉ name.toList ∧ '.' ∉ name.toList

def Entry.text (e : Entry) : String := s!"{e.owner}.{e.name}:({e.params}){e.ret}"

theorem Entry.nameOn?_text (e : Entry) : nameOn? e.text = some e.name := by
  have hfront : ':' ∉ e.owner.toList ++ '.' :: e.name.toList := by
    simp [e.owner_plain, e.name_plain.1]
  have hcut := Text.cutAtWord?_append (w := ['(']) (e.params.toList ++ ')' :: e.ret.toList) hfront
  have htext : e.text.toList =
      (e.owner.toList ++ '.' :: e.name.toList) ++
        ([':', '('] ++ (e.params.toList ++ ')' :: e.ret.toList)) := by
    simp [Entry.text, toString]
  simp only [nameOn?, htext]
  rw [hcut]
  simp [Text.cutAtLast?_append e.owner.toList e.name_plain.2]

/-- A name stands on its own lines. -/
theorem occurs_of_nameOn? {line name : String} (h : nameOn? line = some name) :
    Text.hasWord name line = true := by
  obtain ⟨⟨front, rest⟩, hcut, h⟩ := Option.bind_eq_some_iff.1 h
  obtain ⟨⟨owner, cs⟩, hlast, h⟩ := Option.bind_eq_some_iff.1 h
  obtain rfl : String.ofList cs = name := Option.some.inj h
  rw [Text.hasWord_iff, Text.eq_of_cutAtWord? hcut, Text.eq_of_cutAtLast? hlast,
    String.toList_ofList]
  exact ⟨owner ++ ['.'], [':', '('] ++ rest, by simp⟩

/-! ### The lookup -/

def noMethod (root name : String) : Fault :=
  .malformed s!"No method found for name {Text.quote name} in {root}/{methodsFile}"

/-- The identifier on the line that was found. -/
def identifier (root name : String) : Option String → Except Fault String
  | some line => .ok line
  | none => .error (noMethod root name)

theorem identifier_inj {root name : String} {a b : Option String} :
    identifier root name a = identifier root name b ↔ a = b := by
  cases a <;> cases b <;> simp [identifier]

theorem findMethod_eq (root list name : String) :
    findMethod root list name = identifier root name ((listed list).find? (Text.hasWord name)) := by
  rw [findMethod, listed]
  cases ((Text.feedLines list).map Text.trim).find? (Text.hasWord name) <;> rfl

/-- The line bears the name. -/
def bears (name line : String) : Bool := nameOn? line == some name

theorem bears_iff {name line : String} :
    bears name line = true ↔ nameOn? line = some name := beq_iff_eq

theorem hasWord_of_bears {name line : String} (h : bears name line = true) :
    Text.hasWord name line = true :=
  occurs_of_nameOn? (bears_iff.1 h)

/-- The first method of the list with exactly this name. -/
def ownMethod (root list name : String) : Except Fault String :=
  identifier root name ((listed list).find? (bears name))

/-- A line that has the name only as part of something stands before all lines that bear it. -/
def Mistaken (list name : String) : Prop :=
  ∃ before line after, listed list = before ++ line :: after ∧ name.toList <:+: line.toList ∧
    nameOn? line ≠ some name ∧ ∀ l ∈ before, nameOn? l ≠ some name

theorem findMethod_eq_ok {root list name id : String} :
    findMethod root list name = .ok id ↔ (listed list).find? (Text.hasWord name) = some id := by
  rw [findMethod_eq]
  exact identifier_inj (b := some id)

theorem mistaken_iff (root list name : String) :
    Mistaken list name ↔ ∃ id, findMethod root list name = .ok id ∧ nameOn? id ≠ some name := by
  have hsub : ∀ l, bears name l = true → Text.hasWord name l = true := fun l => hasWord_of_bears
  have hfind := @exists_find?_not_iff _ _ _ (listed list) hsub
  simp only [Bool.eq_false_iff, ne_eq, bears_iff, Text.hasWord_iff] at hfind
  simp only [findMethod_eq_ok]
  exact hfind.symm

/-- The lookup is the one by name where no line is mistaken for another. -/
theorem findMethod_eq_ownMethod_iff (root list name : String) :
    findMethod root list name = ownMethod root list name ↔ ¬ Mistaken list name := by
  rw [findMethod_eq, ownMethod, identifier_inj, find?_eq_find?_iff fun l => hasWord_of_bears,
    mistaken_iff root]
  constructor
  · rintro h ⟨id, hid, hname⟩
    exact hname (bears_iff.1 (h id (findMethod_eq_ok.1 hid)))
  · intro h id hid
    by_contra hname
    exact h ⟨id, findMethod_eq_ok.2 hid, fun hbears => hname (bears_iff.2 hbears)⟩

/-! ### Catalogs -/

/-- A method with the identifier that its name leads to. -/
def resolved (root list : String) (m : Method) : Method :=
  match findMethod root list m.name with
  | .ok id => { m with id := some id }
  | .error _ => m

theorem resolveMethods_eq (root list : String) (ms : List Method) :
    (resolveMethods root list ms).1 = ms.map (resolved root list) := by
  induction ms with
  | nil => rfl
  | cons m ms ih =>
    rw [resolveMethods, List.map_cons, ← ih, resolved]
    cases findMethod root list m.name <;> rfl

theorem resolveIds_eq (root list : String) (c : Catalog) :
    (resolveIds root list c).1 = c.map fun k =>
      { k with methods := k.methods.map (resolved root list) } := by
  induction c with
  | nil => rfl
  | cons k ks ih => rw [resolveIds, List.map_cons, ← ih, ← resolveMethods_eq]

@[simp] theorem resolved_name (root list : String) (m : Method) :
    (resolved root list m).name = m.name := by
  rw [resolved]
  cases findMethod root list m.name <;> rfl

theorem resolved_id {root list : String} {m : Method} (h : m.id = none) (id : String) :
    (resolved root list m).id = some id ↔ findMethod root list m.name = .ok id := by
  rw [resolved]
  cases findMethod root list m.name with
  | ok id' => simp
  | error f => simp [h]

/-- Lines of the usual form bear their method's name. A name leads to the first line that bears it,
or to none, unless it is mistaken for a part of another line, and exactly then it leads to such a
line. So a method gets the identifier of a different one exactly if its name is mistaken. -/
theorem lookup_right_unless_mistaken (root list : String) :
    (∀ e : Entry, nameOn? e.text = some e.name) ∧
      (∀ name, findMethod root list name = ownMethod root list name ↔ ¬ Mistaken list name) ∧
      (∀ name, Mistaken list name ↔ ∃ id, findMethod root list name = .ok id ∧
        nameOn? id ≠ some name) ∧
      ∀ c : Catalog, (∀ k ∈ c, ∀ m ∈ k.methods, m.id = none) →
        ((∃ k ∈ (resolveIds root list c).1, ∃ m ∈ k.methods, ∃ id, m.id = some id ∧
          nameOn? id ≠ some m.name) ↔
          ∃ k ∈ c, ∃ m ∈ k.methods, Mistaken list m.name) := by
  refine ⟨Entry.nameOn?_text, findMethod_eq_ownMethod_iff root list, mistaken_iff root list,
    fun c hid => ?_⟩
  rw [resolveIds_eq]
  constructor
  · rintro ⟨_, hclass, _, hmethod, id, hid', hname⟩
    obtain ⟨k, hk, rfl⟩ := List.mem_map.1 hclass
    obtain ⟨m, hm, rfl⟩ := List.mem_map.1 hmethod
    rw [resolved_id (hid k hk m hm)] at hid'
    rw [resolved_name] at hname
    exact ⟨k, hk, m, hm, (mistaken_iff root list m.name).2 ⟨id, hid', hname⟩⟩
  · rintro ⟨k, hk, m, hm, hmistaken⟩
    obtain ⟨id, hfind, hname⟩ := (mistaken_iff root list m.name).1 hmistaken
    refine ⟨_, List.mem_map_of_mem hk, _, List.mem_map_of_mem hm, id,
      (resolved_id (hid k hk m hm) id).2 hfind, ?_⟩
    rwa [resolved_name]

theorem listed_benchmarkMethods :
    ∃ rest, listed benchmarkMethods =
      "jpamb.cases.BenchmarkSuite.changeStateNested:()V" :: rest := by
  have hline : "jpamb.cases.BenchmarkSuite.changeStateNested:()V\n" =
      "jpamb.cases.BenchmarkSuite.changeStateNested:()V" ++ "\n" := by decide +kernel
  have htrim : Text.trim ("jpamb.cases.BenchmarkSuite.changeStateNested:()V" ++ "\n") =
      "jpamb.cases.BenchmarkSuite.changeStateNested:()V" := by decide +kernel
  rw [listed, benchmarkMethods, String.join_cons, hline,
    Text.feedLines_append _ (by decide +kernel), List.map_cons, htrim]
  exact ⟨_, rfl⟩

/-- The benchmark's method `changeState` is not on the list. It is taken for the first line's. -/
theorem changeState_mistaken :
    findMethod "" benchmarkMethods "changeState" =
      .ok "jpamb.cases.BenchmarkSuite.changeStateNested:()V" ∧
      nameOn? "jpamb.cases.BenchmarkSuite.changeStateNested:()V" = some "changeStateNested" := by
  obtain ⟨rest, hlisted⟩ := listed_benchmarkMethods
  have hword :
      Text.hasWord "changeState" "jpamb.cases.BenchmarkSuite.changeStateNested:()V" = true := by
    decide +kernel
  refine ⟨findMethod_eq_ok.2 ?_, by decide +kernel⟩
  rw [hlisted, List.find?_cons_of_pos hword]

end Suite

end Assay
