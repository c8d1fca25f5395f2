import Assay.Proofs.Given
import Assay.Proofs.MethodId
import Assay.Proofs.Machine.Call
import Assay.Proofs.Machine.Writable

/-!
# The state in which a method starts

Objects among the arguments are made by runs of their constructors, one after the other on one heap
(`Made`). The arguments of a constructor are looked up in the text again: for the argument at a
place, those in the parentheses at the same place, counting inner parentheses only. So the objects
must come first. Then each gets what stands in its own parentheses, and its number is the local
variable at its place; with a number before an object, the parentheses run out.
-/

namespace Assay

theorem ClassName.not_mem_slashed (c : ClassName) : '.' ∉ c.slashed.toList := by
  rw [toList_slashed, List.mem_map]
  rintro ⟨x, -, hx⟩
  split at hx
  · exact absurd hx (by decide)
  next h => exact h hx

/-- A name with slashes has one part. -/
theorem ClassName.name_slashed (c : ClassName) : (ClassName.mk c.slashed).name = c.slashed := by
  simp [ClassName.name, ClassName.parts, Text.split, Text.cutAt_of_not_mem c.not_mem_slashed]

namespace Given

/-- The arguments of the constructor. -/
def args? : Given → Option (List Int)
  | object _ ns => some ns
  | _ => none

/-- The constructor arguments of the objects, as texts. -/
def argTexts (gs : List Given) : List (List Char) :=
  (gs.filterMap args?).map fun ns => (listed ns).toList

theorem argTexts_cons (g : Given) (gs : List Given) :
    argTexts (g :: gs) = g.args?.toList.map (fun ns => (listed ns).toList) ++ argTexts gs := by
  cases hg : g.args? with
  | none => simp [argTexts, hg]
  | some ns => simp [argTexts, hg]

theorem toList_inputText (gs : List Given) :
    (inputText gs).toList =
      '(' :: ([','].intercalate (gs.map fun g => g.text.toList) ++ [')']) := by
  simp [inputText, String.toList_intercalate, Function.comp_def]

/-- The text of an object up to its parenthesis. -/
def heading (name : String) : List Char := ['n', 'e', 'w', ' '] ++ name.toList

theorem not_mem_heading {name : String}
    (h : ∀ c ∈ name.toList, Token.isNameChar c = true) {c : Char} (hc : c = '(' ∨ c = ')') :
    c ∉ heading name := by
  rw [heading, List.mem_append, not_or]
  constructor
  · rcases hc with rfl | rfl <;> decide
  · intro hmem
    rcases hc with rfl | rfl <;> exact absurd (h _ hmem) (by decide)

theorem not_mem_text {g : Given} (hg : g.args? = none) {c : Char} (hc : c = '(' ∨ c = ')') :
    c ∉ g.text.toList := by
  have hdigit : c.isDigit = false ∧ c ≠ '-' ∧ c ≠ ',' := by rcases hc with rfl | rfl <;> decide
  cases g with
  | number n => exact Text.not_mem_toString hdigit.1 hdigit.2.1 n
  | numbers ns =>
    have hlisted := not_mem_listed hdigit.1 hdigit.2.1 hdigit.2.2 ns
    have hends : c ∉ ['[', 'I', ':'] ∧ c ∉ [']'] := by rcases hc with rfl | rfl <;> decide
    have htext : (numbers ns).text.toList = ['[', 'I', ':'] ++ (listed ns).toList ++ [']'] := by
      simp [text]
    rw [htext]
    simp only [List.mem_append, not_or]
    exact ⟨⟨hends.1, hlisted⟩, hends.2⟩
  | object name ns => cases hg

theorem toList_object_text (name : String) (ns : List Int) :
    (object name ns).text.toList = heading name ++ '(' :: ((listed ns).toList ++ [')']) := by
  simp [text, heading]

end Given

namespace Machine

open Given

section Groups

variable {p : List Char}

theorem groups_drop (p r : List Char) : groups (p ++ r) p.length = groups r 0 := by
  induction p with
  | nil => rfl
  | cons c p ih => exact ih

theorem groups_skip (h : '(' ∉ p) (r : List Char) : groups (p ++ r) 0 = groups r 0 := by
  induction p with
  | nil => rfl
  | cons c p ih =>
    obtain ⟨hc, hp⟩ := not_or.1 (List.mem_cons.not.1 h)
    rw [List.cons_append, groups, if_neg fun hand => hc hand.1.symm, ih hp]

theorem takeWhile_group (hopen : '(' ∉ p) (hclose : ')' ∉ p) {c : Char} (hc : c = '(' ∨ c = ')')
    (r : List Char) :
    (p ++ c :: r).takeWhile (fun x => x ≠ '(' ∧ x ≠ ')') = p := by
  have hstop : decide (c ≠ '(' ∧ c ≠ ')') = false := by rcases hc with rfl | rfl <;> decide
  refine Text.takeWhile_append_stop (fun x hx => decide_eq_true ?_) hstop r
  exact ⟨fun e => hopen (e ▸ hx), fun e => hclose (e ▸ hx)⟩

theorem groups_group (hne : p ≠ []) (hopen : '(' ∉ p) (hclose : ')' ∉ p) (r : List Char) :
    groups ('(' :: (p ++ ')' :: r)) 0 = p :: groups r 0 := by
  have hdrop : groups (p ++ ')' :: r) (p.length + 1) = groups r 0 := by
    have h := groups_drop (p ++ [')']) r
    rwa [List.append_assoc, List.length_append] at h
  rw [groups]
  simp only [takeWhile_group hopen hclose (.inr rfl) r]
  rw [if_pos ⟨trivial, hne, by simp⟩, hdrop]

/-- Parentheses with others inside are passed over. -/
theorem groups_outer (hopen : '(' ∉ p) (hclose : ')' ∉ p) (r : List Char) :
    groups ('(' :: (p ++ '(' :: r)) 0 = groups (p ++ '(' :: r) 0 := by
  rw [groups]
  simp only [takeWhile_group hopen hclose (.inl rfl) r]
  exact if_neg fun hand => absurd hand.2.2 (by simp)

theorem listed_ne_nil {ns : List Int} (h : ns ≠ []) : (listed ns).toList ≠ [] := by
  obtain ⟨n, ns, rfl⟩ := List.exists_cons_of_ne_nil h
  rw [toList_listed, List.map_cons, Text.intercalate_cons, Text.toList_toString_int]
  simp

theorem groups_text {g : Given} (hg : g.IsNamed) (r : List Char) :
    groups (g.text.toList ++ r) 0 =
      g.args?.toList.map (fun ns => (listed ns).toList) ++ groups r 0 := by
  cases hargs : g.args? with
  | none => exact groups_skip (not_mem_text hargs (.inl rfl)) r
  | some ns =>
    cases g with
    | object name ms =>
      obtain rfl := Option.some.inj hargs
      obtain ⟨-, hname, hne⟩ := hg
      rw [toList_object_text, List.append_assoc, groups_skip (not_mem_heading hname (.inl rfl)),
        List.cons_append, List.append_assoc]
      exact groups_group (listed_ne_nil hne) (not_mem_listed (by decide) (by decide) (by decide) ms)
        (not_mem_listed (by decide) (by decide) (by decide) ms) r
    | number n => cases hargs
    | numbers ns => cases hargs

theorem groups_more {gs : List Given} (hgs : ∀ g ∈ gs, g.IsNamed) :
    groups (Text.moreText [','] (gs.map fun g => g.text.toList) ++ [')']) 0 = argTexts gs := by
  induction gs with
  | nil => rfl
  | cons g gs ih =>
    obtain ⟨hg, hgs⟩ := List.forall_mem_cons.1 hgs
    have hcomma : '(' ∉ [','] := by decide
    rw [List.map_cons, Text.moreText_cons, List.append_assoc, groups_skip hcomma, List.append_assoc,
      groups_text hg, ih hgs, argTexts_cons]

/-- The first parenthesis after the outer one opens the arguments of an object. -/
theorem exists_opening {gs : List Given} (hgs : ∀ g ∈ gs, g.IsNamed) (hobject : argTexts gs ≠ []) :
    ∃ p r, Text.moreText [','] (gs.map fun g => g.text.toList) ++ [')'] = ',' :: (p ++ '(' :: r) ∧
      '(' ∉ p ∧ ')' ∉ p := by
  induction gs with
  | nil => simp [argTexts] at hobject
  | cons g gs ih =>
    obtain ⟨hg, hgs⟩ := List.forall_mem_cons.1 hgs
    rw [List.map_cons, Text.moreText_cons]
    cases hargs : g.args? with
    | none =>
      rw [argTexts_cons, hargs] at hobject
      obtain ⟨p, r, htext, hopen, hclose⟩ := ih hgs hobject
      refine ⟨g.text.toList ++ ',' :: p, r, ?_, ?_, ?_⟩
      · rw [List.append_assoc, List.append_assoc, htext]
        simp
      · simp [not_mem_text hargs (.inl rfl), hopen]
      · simp [not_mem_text hargs (.inr rfl), hclose]
    | some ns =>
      cases g with
      | object name ms =>
        refine ⟨heading name, (listed ms).toList ++
          ')' :: (Text.moreText [','] (gs.map fun g => g.text.toList) ++ [')']),
          ?_, not_mem_heading hg.2.1 (.inl rfl), not_mem_heading hg.2.1 (.inr rfl)⟩
        rw [toList_object_text]
        simp only [List.append_assoc, List.cons_append, List.nil_append]
      | number n => cases hargs
      | numbers ns => cases hargs

/-- With an object among the arguments, the parentheses are those of the objects. -/
theorem groups_inputText {gs : List Given} (hgs : ∀ g ∈ gs, g.IsNamed)
    (hobject : argTexts gs ≠ []) :
    groups (inputText gs).toList 0 = argTexts gs := by
  obtain ⟨p, r, htext, hopen, hclose⟩ := exists_opening hgs hobject
  have hmore := groups_more hgs
  cases gs with
  | nil => simp [argTexts] at hobject
  | cons g gs =>
    have hbody : [','].intercalate ((g :: gs).map fun g => g.text.toList) ++ [')'] =
        p ++ '(' :: r := by
      rw [List.map_cons, Text.moreText_cons] at htext
      rw [List.map_cons, Text.intercalate_cons]
      exact (List.cons.inj htext).2
    have hcomma : '(' ∉ [','] := by decide
    rw [toList_inputText, hbody, groups_outer hopen hclose, ← hmore, htext]
    exact (groups_skip hcomma _).symm

end Groups

section Arguments

variable {gs : List Given} {index : Nat}

theorem constructorArgs_eq (hgs : ∀ g ∈ gs, g.IsNamed) {ns : List Int}
    (hindex : (gs.filterMap args?)[index]? = some ns) (hne : ns ≠ []) (hnonneg : ∀ n ∈ ns, 0 ≤ n)
    (hw : ∀ n ∈ ns, Text.isWritable n = true) :
    constructorArgs (inputText gs) index = .ok (ns.map .ofInt) := by
  have hfound : (argTexts gs)[index]? = some (listed ns).toList := by simp [argTexts, hindex]
  have hobject : argTexts gs ≠ [] := fun hnil => by simp [hnil] at hfound
  have hread : ((Text.cutAt ',' (listed ns).toList).map fun a => Text.trim (String.ofList a)).mapM
      (Value.Argument.read false) = .ok (ns.map .ofInt) := by
    rw [Value.cutAt_listed hne]
    exact Value.Argument.mapM_read (.inr hnonneg) hw
  rw [constructorArgs, groups_inputText hgs hobject]
  simp only [hfound]
  rwa [List.mapM_map, Function.comp_def] at hread

theorem constructorArgs_ne_ok (hgs : ∀ g ∈ gs, g.IsNamed) (hobject : argTexts gs ≠ [])
    (hindex : (argTexts gs).length ≤ index) (args : List Value) :
    constructorArgs (inputText gs) index ≠ .ok args := by
  simp [constructorArgs, groups_inputText hgs hobject, List.getElem?_eq_none hindex]

end Arguments

/-- An object among the arguments. Its class is not the root of all classes, and its constructor
takes natural numbers, at least one. -/
structure Creation where
  name : String
  args : List Int
  named : (Given.object name args).IsNamed
  notRoot : (ClassName.mk name).slashed ≠ "java/lang/Object"
  nonneg : ∀ n ∈ args, 0 ≤ n

namespace Creation

variable (o : Creation)

def given : Given := .object o.name o.args

def owner : ClassName := ⟨(ClassName.mk o.name).slashed⟩

/-- The constructor that takes so many numbers. -/
def init : MethodId := ⟨o.owner, "<init>", List.replicate o.args.length .int, none⟩

theorem isPlain_init : o.init.IsPlain where
  owner_ne h := by
    have hnil := congrArg String.toList h
    change (ClassName.mk o.name).slashed.toList = [] at hnil
    rw [ClassName.toList_slashed, List.map_eq_nil_iff, String.toList_eq_nil_iff] at hnil
    exact o.named.1 hnil
  owner c hc := by
    change c ∈ (ClassName.mk o.name).slashed.toList at hc
    rw [ClassName.toList_slashed, List.mem_map] at hc
    obtain ⟨x, hx, rfl⟩ := hc
    split
    · decide
    · constructor
      · rintro rfl
        exact absurd (o.named.2.1 _ hx) (by decide)
      · rintro rfl
        exact absurd (o.named.2.1 _ hx) (by decide)
  name c hc := by
    have hall : "<init>".toList.all (fun c => decide (c ≠ '.' ∧ c ≠ ' ' ∧ c ≠ '\n')) = true := by
      decide
    exact of_decide_eq_true (List.all_eq_true.1 hall c hc)
  params t ht := by
    rw [List.eq_of_mem_replicate ht]
    rfl
  ret := nofun

theorem decode_init : MethodId.decode (o.owner.text ++ ".<init>:(" ++
    String.join ((o.args.map Value.ofInt).map fun a => a.type.encode) ++ ")V") = .ok o.init := by
  have htypes : (o.args.map Value.ofInt).map (fun a => a.type.encode) =
      (List.replicate o.args.length Ty.int).map Ty.encode := by
    simp [Value.ofInt, Function.comp_def]
  rw [htypes, ← o.isPlain_init.decode_encode]
  refine congrArg MethodId.decode (String.toList_inj.1 ?_)
  rw [MethodId.IsPlain.toList_encode, Signature.toList_encode]
  simp [init, Ty.encodeAll, Signature.returnText]

theorem isRootConstructor_init : isRootConstructor o.init.ref = .ok false := by
  have hlast : lastPart o.init.ref.owner = .ok (ClassName.mk o.name).slashed :=
    congrArg Except.ok (ClassName.name_slashed ⟨o.name⟩)
  rw [isRootConstructor, hlast, ok_bind, decide_eq_false o.notRoot]
  rfl

end Creation

/-- The preparation when objects with these numbers have been made. -/
def prepared (method : MethodId) (refs : List Int) (h : Heap) : Setup :=
  ⟨h, .enter method (.ofList (refs.map .ofInt)), refs.map .ofInt⟩

/-- The state in which the constructor of an object starts, after the objects with the numbers
`before`: it is called on the number of the new object, with the arguments in order. -/
def constructing (method : MethodId) (before : List Int) (o : Creation) (h : Heap)
    (v : Value) : State :=
  ⟨h.put h.next v, .enter o.init (.ofList (.ofInt h.next :: o.args.map .ofInt)),
    [⟨.ofList ((before ++ [h.next]).map .ofInt), [.ofInt h.next], ⟨method, 0⟩⟩]⟩

/-- Objects are made one after the other, each under the next number of the heap that the ones
`before` have left. -/
inductive Made (lib : Library) (off : Bool) (method : MethodId) :
    (before : List Int) → Heap → List Creation → (refs : List Int) → Heap → Prop
  | nil {before : List Int} {h : Heap} : Made lib off method before h [] [] h
  | cons {before refs : List Int} {h h₁ h₂ : Heap} {o : Creation} {os : List Creation} {v : Value}
      (hnew : lib.newObject o.owner = .ok v)
      (hrun : construct lib off 2 constructorSteps (constructing method before o h v) = .ok h₁)
      (hrest : Made lib off method (before ++ [h.next]) h₁ os refs h₂) :
      Made lib off method before h (o :: os) (h.next :: refs) h₂

section Objects

variable {lib : Library} {off : Bool} {method : MethodId} {text : String}
  {before refs : List Int} {h h' : Heap} {o : Creation} {os : List Creation}

theorem push_all (vs : List Value) (f : Frame) :
    vs.foldl (fun f v => f.push v) f = { f with stack := vs.reverse ++ f.stack } := by
  induction vs generalizing f with
  | nil => rfl
  | cons v vs ih =>
    rw [List.foldl_cons, ih]
    simp [Frame.push, Stack.push]

/-- The constructor is called with the object twice on the stack: one is its receiver, one stays. -/
theorem invokeSpecial_init (method : MethodId) (before : List Int) (o : Creation)
    (h : Heap) (v : Value) :
    invokeSpecial
        ⟨h.put h.next v,
          ⟨.ofList ((before ++ [h.next]).map .ofInt),
            (o.args.map Value.ofInt).reverse ++ [.ofInt h.next, .ofInt h.next], ⟨method, 0⟩⟩, []⟩
        o.init.ref =
      .ok (.running (constructing method before o h v)) := by
  have hcount : o.init.ref.params.length + 1 =
      (Value.ofInt h.next :: o.args.map .ofInt).length := by
    simp [Creation.init, MethodId.ref]
  have hstack : (o.args.map Value.ofInt).reverse ++ [.ofInt h.next, .ofInt h.next] =
      (Value.ofInt h.next :: o.args.map .ofInt).reverse ++ [.ofInt h.next] := by simp
  rw [invokeSpecial, o.isRootConstructor_init, ok_bind]
  show invokeOn _ _ = _
  rw [invokeOn, hcount, popMany_pushed hstack, ok_bind]
  rfl

theorem enterConstructor_eq {v : Value}
    (hargs : constructorArgs text before.length = .ok (o.args.map .ofInt))
    (hnew : lib.newObject o.owner = .ok v) :
    enterConstructor lib text before.length ⟨o.name⟩ (prepared method before h) =
      .ok (.ofInt h.next, constructing method before o h v) := by
  have hlocals : (Locals.ofList (before.map Value.ofInt)).set before.length (.ofInt h.next) =
      .ofList ((before ++ [h.next]).map .ofInt) := by
    have hset := Locals.set_ofList (before.map Value.ofInt) (.ofInt h.next)
    rwa [List.length_map, ← List.map_singleton, ← List.map_append] at hset
  have hinvoke := invokeSpecial_init method before o h v
  rw [← hlocals] at hinvoke
  refine bind_eq_ok.2 ⟨v, hnew, bind_eq_ok.2 ⟨_, hargs, bind_eq_ok.2 ⟨o.init, o.decode_init, ?_⟩⟩⟩
  dsimp only
  rw [push_all]
  exact bind_eq_ok.2 ⟨_, hinvoke, rfl⟩

theorem addInput_creation (hargs : constructorArgs text before.length = .ok (o.args.map .ofInt))
    {q : Setup} :
    addInput lib off method text before.length o.given.value (prepared method before h) = .ok q ↔
      ∃ v h₁, lib.newObject o.owner = .ok v ∧
        construct lib off 2 constructorSteps (constructing method before o h v) = .ok h₁ ∧
        q = prepared method (before ++ [h.next]) h₁ := by
  have hwith : ∀ h₁, (prepared method before h).withObject method (.ofInt h.next) h₁ =
      prepared method (before ++ [h.next]) h₁ := by
    intro h₁
    simp [prepared, Setup.withObject]
  show addObject lib off method text before.length ⟨o.name⟩ (prepared method before h) = .ok q ↔ _
  constructor
  · intro hadd
    obtain ⟨⟨object, s⟩, henter, hadd⟩ := bind_eq_ok.1 hadd
    obtain ⟨v, hnew, -⟩ := bind_eq_ok.1 henter
    rw [enterConstructor_eq hargs hnew] at henter
    obtain ⟨rfl, rfl⟩ := Prod.mk.inj (Except.ok.inj henter)
    obtain ⟨h₁, hrun, hadd⟩ := bind_eq_ok.1 hadd
    exact ⟨v, h₁, hnew, hrun, (Except.ok.inj hadd).symm.trans (hwith h₁)⟩
  · rintro ⟨v, h₁, hnew, hrun, rfl⟩
    rw [← hwith]
    exact bind_eq_ok.2 ⟨_, enterConstructor_eq hargs hnew, bind_eq_ok.2 ⟨h₁, hrun, rfl⟩⟩

/-- The objects at the front of the arguments are made, and the others are added to what is prepared
then. -/
theorem addInputs_creations {rest : Input} {q : Setup}
    (hargs : ∀ i o, os[i]? = some o →
      constructorArgs text (before.length + i) = .ok (o.args.map .ofInt)) :
    addInputs lib off method text before.length (os.map (fun o => o.given.value) ++ rest)
      (prepared method before h) = .ok q ↔
      ∃ refs h', Made lib off method before h os refs h' ∧
        addInputs lib off method text (before ++ refs).length rest
          (prepared method (before ++ refs) h') = .ok q := by
  induction os generalizing before h with
  | nil =>
    constructor
    · intro hadd
      exact ⟨[], h, .nil, by simpa using hadd⟩
    · rintro ⟨refs, h', hmade, hadd⟩
      cases hmade
      simpa using hadd
  | cons o os ih =>
    have hfirst : constructorArgs text before.length = .ok (o.args.map .ofInt) := hargs 0 o rfl
    have hlength : (before ++ [h.next]).length = before.length + 1 := by simp
    have hlater : ∀ i o', os[i]? = some o' →
        constructorArgs text ((before ++ [h.next]).length + i) = .ok (o'.args.map .ofInt) := by
      intro i o' ho'
      rw [hlength, Nat.add_assoc, Nat.add_comm 1]
      exact hargs (i + 1) o' ho'
    rw [List.map_cons, List.cons_append, addInputs, bind_eq_ok, ← hlength]
    constructor
    · rintro ⟨p, hp, hadd⟩
      obtain ⟨v, h₁, hnew, hrun, rfl⟩ := (addInput_creation hfirst).1 hp
      obtain ⟨refs, h', hmade, hadd⟩ := (ih hlater).1 hadd
      rw [List.append_assoc] at hadd
      exact ⟨h.next :: refs, h', .cons hnew hrun hmade, hadd⟩
    · rintro ⟨refs, h', hmade, hadd⟩
      cases hmade with
      | @cons _ refs _ h₁ _ _ _ v hnew hrun hrest =>
        refine ⟨_, (addInput_creation hfirst).2 ⟨v, h₁, hnew, hrun, rfl⟩,
          (ih hlater).2 ⟨refs, h', hrest, ?_⟩⟩
        rwa [List.append_assoc]

theorem addInputs_numbers (ns : List Int) :
    addInputs lib off method text refs.length (ns.map .ofInt) (prepared method refs h) =
      .ok ⟨h, .enter method (.ofList ((refs ++ ns).map .ofInt)), refs.map .ofInt⟩ := by
  have hadd := addInputs_ints lib off method text ns refs ⟨method, 0⟩ h (refs.map .ofInt)
  simp only [Ints.frame, ← Locals.ofList_map] at hadd
  exact hadd

end Objects

namespace Made

open Heap

variable {lib : Library} {off : Bool} {method : MethodId} {before refs : List Int} {h h' : Heap}
  {os : List Creation} {n : Nat}

theorem numbered_constructing (hn : h.IsNumbered n) (method : MethodId) (before : List Int)
    (o : Creation) (v : Value) :
    (constructing method before o h v).heap.IsNumbered (n + 1) := by
  have hput := (hn.put_next v none).2
  rwa [← hn.next_eq] at hput

/-- The object has the next number, so the heap that its constructor leaves has more entries. -/
theorem numbered_made (hn : h.IsNumbered n) {o : Creation} {v : Value}
    (hrun : construct lib off 2 constructorSteps (constructing method before o h v) = .ok h') :
    ∃ k, h'.IsNumbered k ∧ n < k := by
  have hstart := numbered_constructing hn method before o v
  obtain ⟨hpersists, k, hk⟩ := construct_heap hstart hrun
  exact ⟨k, hk, hstart.le_of_persists hk hpersists⟩

theorem heap (hmade : Made lib off method before h os refs h') (hn : h.IsNumbered n) :
    ∃ m, h'.IsNumbered m ∧ n ≤ m := by
  induction hmade generalizing n with
  | nil => exact ⟨n, hn, Nat.le_refl n⟩
  | cons hnew hrun hrest ih =>
    obtain ⟨k, hk, hlt⟩ := numbered_made hn hrun
    obtain ⟨m, hm, hkm⟩ := ih hk
    exact ⟨m, hm, by omega⟩

theorem length_refs (hmade : Made lib off method before h os refs h') :
    refs.length = os.length := by
  induction hmade with
  | nil => rfl
  | cons hnew hrun hrest ih => simp [ih]

/-- The numbers of the objects are in increasing order. -/
theorem refs_sorted (hmade : Made lib off method before h os refs h') (hn : h.IsNumbered n) :
    refs.Pairwise (· < ·) ∧ ∀ r ∈ refs, (n : Int) ≤ r := by
  induction hmade generalizing n with
  | nil => exact ⟨.nil, by simp⟩
  | cons hnew hrun hrest ih =>
    obtain ⟨k, hk, hlt⟩ := numbered_made hn hrun
    obtain ⟨hsorted, hlow⟩ := ih hk
    rw [hn.next_eq]
    refine ⟨List.pairwise_cons.2 ⟨fun r hr => ?_, hsorted⟩,
      List.forall_mem_cons.2 ⟨Int.le_refl _, fun r hr => ?_⟩⟩
    · have := hlow r hr
      omega
    · have := hlow r hr
      omega

/-- The entries of the objects are still there when the last of them has been made. -/
theorem exists_entry (hmade : Made lib off method before h os refs h') (hn : h.IsNumbered n) :
    ∀ r ∈ refs, ∃ v, h'.get? r = some v := by
  induction hmade generalizing n with
  | nil => simp
  | cons hnew hrun hrest ih =>
    obtain ⟨k, hk, hlt⟩ := numbered_made hn hrun
    obtain ⟨m, hm, hkm⟩ := hrest.heap hk
    refine List.forall_mem_cons.2 ⟨mem_keys.1 (hm.mem_iff.2 ?_), ih hk⟩
    rw [hn.next_eq]
    omega

theorem isWritable (hmade : Made lib off method before h os refs h') (hn : h.IsNumbered n)
    (hh : h.IsWritable) (hbound : h'.entries.length ≤ Text.writeBound) : h'.IsWritable := by
  induction hmade generalizing n with
  | nil => exact hh
  | @cons before _ h h₁ _ o _ v hnew hrun hrest ih =>
    have hstart := numbered_constructing hn method before o v
    have hobject : (constructing method before o h v).heap.IsWritable :=
      hh.put (Library.isWritable_newObject hnew)
    obtain ⟨k, hk, -⟩ := numbered_made hn hrun
    obtain ⟨m, hm, hkm⟩ := hrest.heap hk
    rw [hm.length_eq] at hbound
    have hsmall : h₁.entries.length ≤ Text.writeBound := by
      rw [hk.length_eq]
      omega
    exact ih hk (construct_isWritable hstart hobject hrun hsmall) (by rwa [hm.length_eq])

end Made

section Start

variable {lib : Library} {off : Bool} {method : MethodId}

theorem start_eq_ok {input : Input} {text : String} {s : State} :
    start lib off method input text = .ok s ↔
      ∃ p, addInputs lib off method text 0 input (prepared method [] .empty) = .ok p ∧
        s = ⟨p.heap, p.frame, []⟩ ∧
        s.isWritable = true := by
  rw [start, bind_eq_ok]
  refine exists_congr fun p => and_congr_right fun _ => ?_
  dsimp only
  constructor
  · intro h
    split at h
    next hw =>
      obtain rfl := Except.ok.inj h
      exact ⟨rfl, hw⟩
    next => cases h
  · rintro ⟨rfl, hw⟩
    exact if_pos hw

theorem place_addInput {text : String} {index : Nat} {v : Value} {p q : Setup}
    (h : addInput lib off method text index v p = .ok q) (hp : p.frame.place = ⟨method, 0⟩) :
    q.frame.place = ⟨method, 0⟩ := by
  rw [addInput] at h
  split at h
  · obtain ⟨⟨object, s⟩, -, h⟩ := bind_eq_ok.1 h
    obtain ⟨heap, -, h⟩ := bind_eq_ok.1 h
    obtain rfl := Except.ok.inj h
    rfl
  · obtain ⟨w, -, h⟩ := bind_eq_ok.1 h
    dsimp only at h
    split at h
    · obtain rfl := Except.ok.inj h
      exact hp
    · obtain rfl := Except.ok.inj h
      exact hp

theorem place_addInputs {text : String} {index : Nat} {input : Input} {p q : Setup}
    (h : addInputs lib off method text index input p = .ok q)
    (hp : p.frame.place = ⟨method, 0⟩) : q.frame.place = ⟨method, 0⟩ := by
  induction input generalizing index p with
  | nil =>
    obtain rfl := Except.ok.inj h
    exact hp
  | cons v input ih =>
    obtain ⟨p', hp', h⟩ := bind_eq_ok.1 h
    exact ih h (place_addInput hp' hp)

/-- Arguments with the objects before the numbers. -/
def objectsFirst (os : List Creation) (ns : List Int) : List Given :=
  os.map Creation.given ++ ns.map Given.number

variable {os : List Creation} {ns : List Int}

theorem values_objectsFirst :
    (objectsFirst os ns).map Given.value =
      os.map (fun o => o.given.value) ++ ns.map Value.ofInt := by
  simp [objectsFirst, Function.comp_def, Given.value]

theorem isNamed_objectsFirst : ∀ g ∈ objectsFirst os ns, g.IsNamed := by
  intro g hg
  rcases List.mem_append.1 hg with hg | hg
  · obtain ⟨o, -, rfl⟩ := List.mem_map.1 hg
    exact o.named
  · obtain ⟨n, -, rfl⟩ := List.mem_map.1 hg
    trivial

theorem filterMap_objectsFirst : (objectsFirst os ns).filterMap args? = os.map Creation.args := by
  have hobjects : os.filterMap (fun o => args? o.given) = os.map Creation.args :=
    congrFun List.filterMap_eq_map os
  have hnumbers : ns.filterMap (fun n => args? (.number n)) = [] :=
    List.filterMap_eq_nil_iff.2 fun _ _ => rfl
  rw [objectsFirst, List.filterMap_append, List.filterMap_map, List.filterMap_map]
  simp only [Function.comp_def, hobjects, hnumbers, List.append_nil]

/-- With the objects first, the method starts where all of them can be made. -/
theorem start_creations (hw : ∀ g ∈ objectsFirst os ns, g.IsWritable) {s : State} :
    start lib off method ((objectsFirst os ns).map Given.value) (inputText (objectsFirst os ns)) =
        .ok s ↔
      ∃ refs h, Made lib off method [] .empty os refs h ∧
        s = ⟨h, .enter method (.ofList ((refs ++ ns).map .ofInt)), []⟩ ∧ s.isWritable = true := by
  have hargs : ∀ i o, os[i]? = some o →
      constructorArgs (inputText (objectsFirst os ns)) (([] : List Int).length + i) =
        .ok (o.args.map .ofInt) := by
    intro i o ho
    have hindex : ((objectsFirst os ns).filterMap args?)[i]? = some o.args := by
      rw [filterMap_objectsFirst, List.getElem?_map, ho]
      rfl
    have hgiven : o.given ∈ objectsFirst os ns :=
      List.mem_append_left _ (List.mem_map_of_mem (List.mem_of_getElem? ho))
    rw [List.length_nil, Nat.zero_add]
    exact constructorArgs_eq isNamed_objectsFirst hindex o.named.2.2 o.nonneg (hw _ hgiven)
  rw [values_objectsFirst, start_eq_ok]
  constructor
  · rintro ⟨p, hp, hs⟩
    obtain ⟨refs, h, hmade, hp⟩ := (addInputs_creations hargs).1 hp
    rw [List.nil_append, addInputs_numbers] at hp
    obtain rfl := Except.ok.inj hp
    exact ⟨refs, h, hmade, hs⟩
  · rintro ⟨refs, h, hmade, hs⟩
    exact ⟨_, (addInputs_creations hargs).2 ⟨refs, h, hmade, addInputs_numbers ns⟩, hs⟩

theorem Made.start_isWritable {refs : List Int} {h : Heap}
    (hmade : Made lib off method [] .empty os refs h) (hns : ∀ n ∈ ns, Text.isWritable n = true)
    (hbound : h.entries.length ≤ Text.writeBound) :
    (State.mk h (.enter method (.ofList ((refs ++ ns).map .ofInt))) []).isWritable = true := by
  obtain ⟨m, hm, -⟩ := hmade.heap .empty
  have hrefs : ∀ r ∈ refs, Text.isWritable r = true := by
    intro r hr
    obtain ⟨v, hv⟩ := hmade.exists_entry .empty r hr
    obtain ⟨h0, hlt⟩ := hm.mem_iff.1 (Heap.mem_keys.2 ⟨v, hv⟩)
    rw [hm.length_eq] at hbound
    rw [← Int.toNat_of_nonneg h0]
    exact Text.isWritable_ofNat (by omega)
  refine State.isWritable_iff.2 ⟨nofun, hmade.isWritable .empty .empty hbound, ?_⟩
  intro e he
  obtain ⟨n, hn, hvalue⟩ := List.mem_map.1 (Locals.mem_ofList he)
  rw [← hvalue]
  rcases List.mem_append.1 hn with hn | hn
  · exact hrefs n hn
  · exact hns n hn

/-- Where an object comes after something else, the last object has a place after as many others as
there are objects. -/
theorem exists_late_object {gs : List Given} {i j : Nat} {g : Given} {name : String}
    {args : List Int} (hij : i < j) (hi : gs[i]? = some g) (hg : g.args? = none)
    (hj : gs[j]? = some (.object name args)) :
    ∃ k name args, gs[k]? = some (.object name args) ∧ (gs.filterMap args?).length ≤ k := by
  induction gs using List.reverseRecOn generalizing j name args with
  | nil => simp at hi
  | append_singleton gs x ih =>
    have hjle : j ≤ gs.length := by
      have := (List.getElem?_eq_some_iff.1 hj).1
      simpa [Nat.lt_succ_iff] using this
    have hi' : gs[i]? = some g := by rwa [List.getElem?_append_left (by omega)] at hi
    cases hx : x.args? with
    | none =>
      have hjlt : j ≠ gs.length := by
        rintro rfl
        rw [List.getElem?_concat_length] at hj
        rw [Option.some.inj hj] at hx
        cases hx
      rw [List.getElem?_append_left (by omega)] at hj
      obtain ⟨k, name, args, hk, hle⟩ := ih hij hi' hj
      refine ⟨k, name, args, ?_, ?_⟩
      · rw [List.getElem?_append_left (List.getElem?_eq_some_iff.1 hk).1, hk]
      · simpa [hx] using hle
    | some args =>
      cases x with
      | object name args =>
        have hfewer : (gs.filterMap args?).length < gs.length :=
          List.length_filterMap_lt_length_iff_exists.2 ⟨g, List.mem_of_getElem? hi', hg⟩
        refine ⟨gs.length, name, args, List.getElem?_concat_length, ?_⟩
        rw [List.filterMap_append, List.length_append]
        exact hfewer
      | number n => cases hx
      | numbers ns => cases hx

/-- An object whose arguments are not found stops the preparation. -/
theorem addInputs_ne_ok {text : String} {index : Nat} {input : Input} {p q : Setup}
    {k : Nat} {v : Value} {owner : ClassName} (hk : input[k]? = some v)
    (hv : v.type = .object owner) (hargs : ∀ args, constructorArgs text (index + k) ≠ .ok args) :
    addInputs lib off method text index input p ≠ .ok q := by
  induction input generalizing index p k with
  | nil => simp at hk
  | cons w input ih =>
    intro h
    obtain ⟨p', hp', h⟩ := bind_eq_ok.1 h
    cases k with
    | zero =>
      obtain rfl := Option.some.inj hk
      rw [addInput, hv] at hp'
      obtain ⟨_, henter, -⟩ := bind_eq_ok.1 hp'
      obtain ⟨_, -, henter⟩ := bind_eq_ok.1 henter
      obtain ⟨args, hfound, -⟩ := bind_eq_ok.1 henter
      exact hargs args hfound
    | succ k =>
      rw [Nat.add_comm k, ← Nat.add_assoc] at hargs
      exact ih hk hargs h

theorem start_error (lib : Library) (off : Bool) (method : MethodId) {gs : List Given}
    (hnamed : ∀ g ∈ gs, g.IsNamed) {i j : Nat} {g : Given} {name : String} {args : List Int}
    (hij : i < j) (hi : gs[i]? = some g) (hg : g.args? = none)
    (hj : gs[j]? = some (.object name args)) :
    ∃ e, start lib off method (gs.map Given.value) (inputText gs) = .error e := by
  obtain ⟨k, name, args, hk, hle⟩ := exists_late_object hij hi hg hj
  have hmem : args ∈ gs.filterMap args? := List.mem_filterMap.2 ⟨_, List.mem_of_getElem? hk, rfl⟩
  have hobject : argTexts gs ≠ [] := List.ne_nil_of_mem (List.mem_map_of_mem hmem)
  have hlate : ∀ found, constructorArgs (inputText gs) k ≠ .ok found :=
    constructorArgs_ne_ok hnamed hobject (by simpa [argTexts] using hle)
  cases hstart : start lib off method (gs.map Given.value) (inputText gs) with
  | error e => exact ⟨e, rfl⟩
  | ok s =>
    obtain ⟨p, hp, -⟩ := start_eq_ok.1 hstart
    have hvalue : (gs.map Given.value)[k]? = some (Given.object name args).value := by simp [hk]
    exact absurd hp (addInputs_ne_ok hvalue rfl (by simpa using hlate))

end Start

/-- Objects among the arguments of a method, by their texts. If they come first, the method starts
exactly where all of them can be made, with their numbers and the numbers among the arguments as its
local variables. If something comes before one of them, it does not start. -/
theorem start_makes_objects (lib : Library) (off : Bool) (method : MethodId) :
    (∀ (os : List Creation) (ns : List Int), (∀ g ∈ objectsFirst os ns, g.IsWritable) →
      Input.decode (inputText (objectsFirst os ns)) = .ok ((objectsFirst os ns).map Given.value) ∧
      (∀ refs h, Made lib off method [] .empty os refs h →
        refs.length = os.length ∧ refs.Nodup ∧ (∀ r ∈ refs, ∃ v, h.get? r = some v) ∧
        (h.entries.length ≤ Text.writeBound →
          start lib off method ((objectsFirst os ns).map Given.value)
            (inputText (objectsFirst os ns)) =
            .ok ⟨h, .enter method (.ofList ((refs ++ ns).map .ofInt)), []⟩)) ∧
      ∀ s, start lib off method ((objectsFirst os ns).map Given.value)
        (inputText (objectsFirst os ns)) = .ok s →
        ∃ refs h, Made lib off method [] .empty os refs h ∧
          s = ⟨h, .enter method (.ofList ((refs ++ ns).map .ofInt)), []⟩) ∧
    ∀ (gs : List Given), (∀ g ∈ gs, g.IsNamed) → (∀ g ∈ gs, g.IsWritable) →
      ∀ (i j : Nat) (g : Given) (name : String) (args : List Int),
        i < j → gs[i]? = some g → g.args? = none → gs[j]? = some (.object name args) →
        (∃ e, start lib off method (gs.map Given.value) (inputText gs) = .error e) ∧
        ∀ m, MethodId.decode m = .ok method →
          interpret lib m (inputText gs) off = .ok genericError := by
  constructor
  · intro os ns hw
    refine ⟨decode_inputText isNamed_objectsFirst hw, fun refs h hmade => ?_, fun s hs => ?_⟩
    · obtain ⟨hsorted, -⟩ := hmade.refs_sorted .empty
      refine ⟨hmade.length_refs, hsorted.imp fun hlt => Int.ne_of_lt hlt, hmade.exists_entry .empty,
        fun hbound => ?_⟩
      have hns : ∀ n ∈ ns, Text.isWritable n = true := fun n hn =>
        hw (.number n) (List.mem_append_right _ (List.mem_map_of_mem hn)) n (by simp [Given.ints])
      exact (start_creations hw).2 ⟨refs, h, hmade, rfl, hmade.start_isWritable hns hbound⟩
    · obtain ⟨refs, h, hmade, hs, -⟩ := (start_creations hw).1 hs
      exact ⟨refs, h, hmade, hs⟩
  · intro gs hnamed hw i j g name args hij hi hg hj
    obtain ⟨e, he⟩ := start_error lib off method hnamed hij hi hg hj
    refine ⟨⟨e, he⟩, fun m hm => ?_⟩
    simp [interpret, hm, decode_inputText hnamed hw, he]

/-- A method that returns at once. -/
def runId : MethodId := ⟨⟨"math.Main"⟩, "run", [], none⟩

/-- A cell holds one number, and its constructor leaves it at zero. -/
def cell (n : Nat) : Creation where
  name := "math.Cell"
  args := [n]
  named := ⟨by decide, List.all_eq_true.1 (by decide), by simp⟩
  notRoot := by decide
  nonneg := by simp

def newCell : Value := ⟨.object (cell 0).owner, .record [("value", (Value.ofInt 0).toDatum)]⟩

def cellLibrary : Library :=
  oneClass (cell 0).init
    (.obj [("fields", .arr [.obj [("name", .str "value"), ("type", .obj [("base", .str "int")])]])])
    [⟨.null, .ret none⟩]

theorem newObject_cell (n : Nat) : cellLibrary.newObject (cell n).owner = .ok newCell := by
  have hfind : cellLibrary.find (cell 0).init.owner = .ok (cellLibrary.files.head!).2 := by
    simp [Library.find, cellLibrary, oneClass]
  show (cellLibrary.find (cell 0).init.owner >>= _) = _
  rw [hfind]
  rfl

theorem construct_cell {n : Nat} {s : State} {caller : Frame}
    (hplace : s.frame.place = ⟨(cell n).init, 0⟩) (hcallers : s.callers = [caller])
    (hw : s.isWritable = true) :
    construct cellLibrary false 2 constructorSteps s = .ok s.heap := by
  have hfetch : fetch cellLibrary s.frame.place = .ok ⟨.null, .ret none⟩ := by
    rw [hplace]
    exact fetch_eq (code_oneClass (cell 0).init _ _) (n := 0) rfl
  have hstep : step cellLibrary false s = .ok (.running ⟨s.heap, caller.advance, []⟩) := by
    rw [step_eq hfetch nofun, if_pos hw, exec]
    simp [ret, hcallers]
  show construct cellLibrary false 2 (99999 + 1) s = _
  rw [construct, hstep, ok_bind]
  rfl

theorem start_makes_cells :
    start cellLibrary false runId ((objectsFirst [cell 7, cell 8] [3]).map Given.value)
        "(new math.Cell(7),new math.Cell(8),3)" =
      .ok ⟨⟨[(0, newCell), (1, newCell)]⟩,
        .enter runId (.ofList [.ofInt 0, .ofInt 1, .ofInt 3]), []⟩ ∧
    interpret cellLibrary "math.Main.run:()V" "(3,new math.Cell(7))" false = .ok genericError := by
  obtain ⟨hfirst, hlater⟩ := start_makes_objects cellLibrary false runId
  have hmade : Made cellLibrary false runId [] .empty [cell 7, cell 8] [0, 1]
      ⟨[(0, newCell), (1, newCell)]⟩ :=
    .cons (newObject_cell 7) (construct_cell rfl rfl (by decide +kernel))
      (.cons (newObject_cell 8) (construct_cell rfl rfl (by decide +kernel)) .nil)
  have htext : inputText (objectsFirst [cell 7, cell 8] [3]) =
      "(new math.Cell(7),new math.Cell(8),3)" := by decide
  have htext' : inputText [.number 3, .object "math.Cell" [7]] = "(3,new math.Cell(7))" := by decide
  constructor
  · obtain ⟨-, hstart, -⟩ := hfirst [cell 7, cell 8] [3] (by decide +kernel)
    obtain ⟨-, -, -, hstart⟩ := hstart _ _ hmade
    rw [htext] at hstart
    exact hstart (by decide +kernel)
  · rw [← htext']
    have hcell := hlater [.number 3, .object "math.Cell" [7]] (by decide) (by decide +kernel)
    refine (hcell 0 1 _ _ _ (by decide) rfl rfl rfl).2 _ ?_
    rfl

/-- A method in the root of all classes that returns at once. -/
def rootRun : MethodId := ⟨⟨"java/lang/Object"⟩, "run", [], none⟩

def rootInit : MethodId := ⟨⟨"java/lang/Object"⟩, "<init>", [.int], none⟩

def rootLibrary : Library := oneClass rootRun (.obj []) [⟨.null, .ret none⟩]

/-- The method, when it should be the constructor that runs. -/
def rootState : State :=
  ⟨⟨[(0, ⟨.object ⟨"java/lang/Object"⟩, .record []⟩)]⟩,
    ⟨[(0, .ofInt 0)], [.ofInt 7, .ofInt 0, .ofInt 0], ⟨rootRun, 1⟩⟩, []⟩

theorem newObject_root : rootLibrary.newObject ⟨(ClassName.mk "java/lang/Object").slashed⟩ =
    .ok ⟨.object ⟨"java/lang/Object"⟩, .record []⟩ := by
  have hslashed : (ClassName.mk "java/lang/Object").slashed = "java/lang/Object" := by decide
  have hfind : rootLibrary.find rootRun.owner = .ok (rootLibrary.files.head!).2 := by
    simp [Library.find, rootLibrary, oneClass]
  rw [hslashed]
  show (rootLibrary.find rootRun.owner >>= _) = _
  rw [hfind]
  rfl

theorem enterConstructor_root :
    enterConstructor rootLibrary "(new java/lang/Object(7))" 0 ⟨"java/lang/Object"⟩
      (prepared rootRun [] .empty) =
      .ok (.ofInt 0, rootState) := by
  have hargs : constructorArgs "(new java/lang/Object(7))" 0 = .ok [.ofInt 7] := rfl
  have htext : (ClassName.mk "java/lang/Object").slashed ++ ".<init>:(" ++
      String.join ([Value.ofInt 7].map fun a => a.type.encode) ++ ")V" =
        "java/lang/Object.<init>:(I)V" := by decide
  have hid : MethodId.decode ((ClassName.mk "java/lang/Object").slashed ++ ".<init>:(" ++
      String.join ([Value.ofInt 7].map fun a => a.type.encode) ++ ")V") = .ok rootInit := by
    rw [htext]
    rfl
  have hroot : isRootConstructor rootInit.ref = .ok true := by decide
  have hinvoke : invokeSpecial
      ⟨rootState.heap, ⟨rootState.frame.locals, rootState.frame.stack, ⟨rootRun, 0⟩⟩, []⟩
      rootInit.ref = .ok (.running rootState) := by
    rw [invokeSpecial, hroot, ok_bind]
    rfl
  exact bind_eq_ok.2 ⟨_, newObject_root,
    bind_eq_ok.2 ⟨_, hargs, bind_eq_ok.2 ⟨_, hid, bind_eq_ok.2 ⟨_, hinvoke, rfl⟩⟩⟩⟩

theorem construct_root : construct rootLibrary false 1 constructorSteps rootState =
    .error (.outOfRange "list index out of range") := by
  have hcode : rootLibrary.code rootState.frame.place.method = .ok [⟨.null, .ret none⟩] :=
    code_oneClass rootRun _ _
  have hstep : step rootLibrary false rootState =
      .error (.outOfRange "list index out of range") := by
    rw [step, fetch, hcode]
    rfl
  show construct rootLibrary false 1 (99999 + 1) rootState = _
  rw [construct, hstep, error_bind]

/-- The constructor of the root of all classes is passed over, so the steps that should make the
object are steps of the method: here the one after its last instruction. -/
theorem root_object_not_made :
    (∃ v, rootLibrary.newObject ⟨(ClassName.mk "java/lang/Object").slashed⟩ = .ok v) ∧
    interpret rootLibrary "java/lang/Object.run:()V" "(new java/lang/Object(7))" false =
      .ok genericError := by
  have hmethod : MethodId.decode "java/lang/Object.run:()V" = .ok rootRun := rfl
  have htext : inputText [.object "java/lang/Object" [7]] = "(new java/lang/Object(7))" := by decide
  have hinput : Input.decode (inputText [.object "java/lang/Object" [7]]) =
      .ok ([Given.object "java/lang/Object" [7]].map Given.value) :=
    decode_inputText (by decide) (by decide +kernel)
  have hadd : addInput rootLibrary false rootRun "(new java/lang/Object(7))" 0
      (Given.object "java/lang/Object" [7]).value
      (prepared rootRun [] .empty) = .error (.outOfRange "list index out of range") := by
    show addObject _ _ _ _ _ _ _ = _
    rw [addObject, enterConstructor_root, ok_bind]
    exact congrArg (· >>= _) construct_root
  have hinputs : addInputs rootLibrary false rootRun "(new java/lang/Object(7))" 0
      ([Given.object "java/lang/Object" [7]].map Given.value) (prepared rootRun [] .empty) =
        .error (.outOfRange "list index out of range") := congrArg (· >>= _) hadd
  have hstart :
      start rootLibrary false rootRun ([Given.object "java/lang/Object" [7]].map Given.value)
      "(new java/lang/Object(7))" = .error (.outOfRange "list index out of range") :=
    congrArg (· >>= _) hinputs
  refine ⟨⟨_, newObject_root⟩, ?_⟩
  rw [htext] at hinput
  simp only [interpret, hmethod, hinput, ok_bind, pure_eq_ok, hstart]

end Machine

end Assay
