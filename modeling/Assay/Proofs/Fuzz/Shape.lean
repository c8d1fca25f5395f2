import Assay.Fuzz.Run
import Assay.Proofs.Descriptor.Rendered
import Assay.Proofs.Given

/-!
# Shapes of inputs

Parameters that are numbers, arrays of numbers, or objects whose constructors take numbers only. An
input that has an argument of its shape for each parameter is written, unless a number in it is too
long, and its text is read as one value for each parameter.
-/

namespace Assay

namespace Fuzz

/-- A type of whole numbers. -/
inductive Letter where
  | int | short | long | byte
  deriving DecidableEq

namespace Letter

def char : Letter → Char
  | int => 'I'
  | short => 'S'
  | long => 'J'
  | byte => 'B'

def name (l : Letter) : String := String.singleton l.char

end Letter

/-- What an argument looks like. The name of an object is longer than that of an element type, which
is how fuzzing tells objects from arrays. -/
inductive Shape where
  | number (l : Letter)
  | numbers
  | object (name : String) (init : List Letter) (long : 1 < name.length)
      (named : ∀ c ∈ name.toList, Token.isNameChar c = true) (takes : init ≠ [])

namespace Shape

/-- The text of the parameter in a method identifier. -/
def descriptor : Shape → List Char
  | number l => [l.char]
  | numbers => ['[', 'I']
  | object name init .. =>
    'L' :: (name.toList ++ ("<init>".toList ++ (init.map Letter.char ++ [';'])))

def parameter : Shape → Parameter
  | number l => .plain l.name
  | numbers => .plain "[I"
  | object name init .. => .object name (init.map Letter.name)

end Shape

section Parameters

theorem not_mem_name {name : String}
    (named : ∀ c ∈ name.toList, Token.isNameChar c = true) {c : Char}
    (hc : Token.isNameChar c = false) (hL : c ≠ 'L') : c ∉ 'L' :: name.toList := by
  intro hmem
  rcases List.mem_cons.1 hmem with rfl | hmem
  · exact hL rfl
  · exact absurd (named c hmem) (by simp [hc])

theorem Letter.char_ne (l : Letter) : l.char ≠ 'L' ∧ l.char ≠ '[' ∧ l.char ≠ ';' := by
  cases l <;> decide

theorem Shape.isRegular (s : Shape) : s.parameter.IsRegular := by
  cases s with
  | number l => exact .plain (.letter ⟨l.char_ne.1, l.char_ne.2.1⟩)
  | numbers => exact .plain (.array (c := 'I') (by decide))
  | object name init long named takes =>
    have hname : ∀ {c : Char}, Token.isNameChar c = false → c ≠ 'L' → c ∉ name.toList :=
      fun hc hL hmem => not_mem_name named hc hL (List.mem_cons_of_mem _ hmem)
    refine .object (hname (by decide) (by decide)) (hname (by decide) (by decide)) fun type ht => ?_
    obtain ⟨l, -, rfl⟩ := List.mem_map.1 ht
    exact .letter l.char_ne.2

theorem flatMap_name (init : List Letter) :
    (init.map Letter.name).flatMap String.toList = init.map Letter.char := by
  induction init with
  | nil => rfl
  | cons l init ih =>
    rw [List.map_cons, List.flatMap_cons, ih, Letter.name, String.toList_singleton]; rfl

theorem descriptor_parameters (shapes : List Shape) :
    Parameter.descriptor (shapes.map Shape.parameter) = shapes.flatMap Shape.descriptor := by
  induction shapes with
  | nil => rfl
  | cons s shapes ih =>
    have hone : s.parameter.rendered = s.descriptor := by
      cases s with
      | number l => simp [Shape.parameter, Shape.descriptor, Parameter.rendered, Letter.name]
      | numbers => rfl
      | object name init long named takes =>
        simp [Shape.parameter, Shape.descriptor, Parameter.rendered, flatMap_name]
    rw [List.map_cons, Parameter.descriptor_cons, ih, hone, List.flatMap_cons]

/-- The parameters of a method are those between its first parentheses. -/
theorem ofMethod_descriptors {method : String} {shapes : List Shape} {front back : List Char}
    (hmethod : method.toList = front ++ '(' :: (shapes.flatMap Shape.descriptor ++ ')' :: back))
    (hopen : '(' ∉ front) (hclose : ')' ∉ front ++ '(' :: shapes.flatMap Shape.descriptor) :
    Parameter.ofMethod method = .ok (shapes.map Shape.parameter) := by
  rw [← descriptor_parameters] at hmethod hclose
  refine Parameter.ofMethod_eq (List.forall_mem_map.2 fun s _ => s.isRegular)
    ⟨front, back, hmethod, hopen, ?_⟩
  exact fun hmem =>
    hclose ((List.Sublist.append_left (List.sublist_cons_self _ _) front).subset hmem)

end Parameters

section Texts

inductive IsInt : Argument → Prop
  | mk (n : Int) : IsInt (.plain (.int n))

/-- The argument has the shape. -/
inductive Fits : Shape → Argument → Prop
  | number (l : Letter) {a : Argument} (h : IsInt a) : Fits (.number l) a
  | numbers (mark : Nat) {items : List Argument} (h : ∀ a ∈ items, IsInt a) :
      Fits .numbers (.list mark (.plain (.str "I") :: items))
  | object {name : String} {init : List Letter} (long : 1 < name.length)
      (named : ∀ c ∈ name.toList, Token.isNameChar c = true) (takes : init ≠ []) (mark : Nat)
      {items : List Argument} (h : ∀ a ∈ items, IsInt a) (hlength : items.length = init.length) :
      Fits (.object name init long named takes) (.list mark (.plain (.str name) :: items))

/-- The input has one argument for each shape. -/
inductive FitsAll (shapes : List Shape) : Argument → Prop
  | list (mark : Nat) {args : List Argument} (h : List.Forall₂ Fits shapes args) :
      FitsAll shapes (.list mark args)

/-- The value is one for a parameter of the shape. -/
inductive Shows : Shape → Value → Prop
  | number (l : Letter) (n : Int) : Shows (.number l) (.ofInt n)
  | numbers (ns : List Int) : Shows .numbers (.ofArray .int (ns.map .int))
  | object {name : String} {init : List Letter} (long : 1 < name.length)
      (named : ∀ c ∈ name.toList, Token.isNameChar c = true) (takes : init ≠ []) (ns : List Int)
      (hlength : ns.length = init.length) : Shows (.object name init long named takes)
        ⟨.object ⟨name⟩, .record [("value", .list (ns.map fun n => (Value.ofInt n).toDatum))]⟩

theorem exists_ints {items : List Argument} (h : ∀ a ∈ items, IsInt a) :
    ∃ ns : List Int, Argument.toData items = ns.map .int ∧ ns.length = items.length := by
  induction items with
  | nil => exact ⟨[], rfl, rfl⟩
  | cons a items ih =>
    obtain ⟨ns, hns, hlength⟩ := ih fun b hb => h b (by simp [hb])
    obtain ⟨n⟩ := h a (by simp)
    exact ⟨n :: ns, by simp [Argument.toData, Argument.toDatum, hns], by simp [hlength]⟩

theorem argumentText_int (n : Int) (t : String) :
    argumentText (.int n) = .ok t ↔ Text.isWritable n = true ∧ t = toString n := by
  have hwrite : argumentText (.int n) = (Datum.int n).write := by rw [argumentText]; all_goals nofun
  cases h : Text.isWritable n with
  | true =>
    rw [hwrite, Datum.write_int h]
    exact ⟨fun ht => ⟨rfl, (Except.ok.inj ht).symm⟩, fun ht => congrArg Except.ok ht.2.symm⟩
  | false =>
    rw [hwrite, Datum.write_int_long h]
    exact ⟨nofun, nofun⟩

theorem argumentTexts_ints (ns : List Int) (ts : List String) :
    argumentTexts (ns.map .int) = .ok ts ↔ (∀ n ∈ ns, Text.isWritable n = true) ∧
    ts = ns.map toString := by
  induction ns generalizing ts with
  | nil =>
    rw [List.map_nil, argumentTexts]
    exact ⟨fun h => ⟨nofun, (Except.ok.inj h).symm⟩, fun h => congrArg Except.ok h.2.symm⟩
  | cons n ns ih =>
    rw [List.map_cons, argumentTexts, bind_eq_ok]
    constructor
    · rintro ⟨t, ht, h⟩
      obtain ⟨us, hus, h⟩ := bind_eq_ok.1 h
      obtain rfl := Except.ok.inj h
      obtain ⟨hn, rfl⟩ := (argumentText_int n t).1 ht
      obtain ⟨hns, rfl⟩ := (ih us).1 hus
      exact ⟨List.forall_mem_cons.2 ⟨hn, hns⟩, rfl⟩
    · rintro ⟨hw, rfl⟩
      obtain ⟨hn, hns⟩ := List.forall_mem_cons.1 hw
      exact ⟨_, (argumentText_int n _).2 ⟨hn, rfl⟩, bind_eq_ok.2 ⟨_, (ih _).2 ⟨hns, rfl⟩, rfl⟩⟩

theorem argumentText_list (name : String) (ns : List Int) (t : String) :
    argumentText (.list (.str name :: ns.map .int)) = .ok t ↔ (∀ n ∈ ns, Text.isWritable n = true) ∧
      t = if 1 < name.length then "new " ++ name ++ "(" ++ Given.listed ns ++ ")"
        else "[" ++ name ++ ":" ++ Given.listed ns ++ "]" := by
  rw [argumentText, typeLength, ok_bind, bind_eq_ok]
  by_cases hlong : 1 < name.length
  · simp only [hlong, if_true]
    constructor
    · rintro ⟨ts, hts, h⟩
      obtain ⟨hw, rfl⟩ := (argumentTexts_ints ns ts).1 hts
      exact ⟨hw, (Except.ok.inj h).symm⟩
    · rintro ⟨hw, rfl⟩
      exact ⟨_, (argumentTexts_ints ns _).2 ⟨hw, rfl⟩, rfl⟩
  · simp only [hlong, if_false]
    constructor
    · rintro ⟨ts, hts, h⟩
      obtain ⟨hw, rfl⟩ := (argumentTexts_ints ns ts).1 hts
      exact ⟨hw, (Except.ok.inj h).symm⟩
    · rintro ⟨hw, rfl⟩
      exact ⟨_, (argumentTexts_ints ns _).2 ⟨hw, rfl⟩, rfl⟩

/-- An argument of a shape is written just if no number in it is too long, and stands for a value of
the shape. -/
theorem Fits.exists_given {s : Shape} {a : Argument} (h : Fits s a) :
    ∃ g : Given, g.IsNamed ∧ Shows s g.value ∧ ∀ t, argumentText a.toDatum = .ok t ↔
      g.IsWritable ∧ t = g.text := by
  cases h with
  | number l h =>
    obtain ⟨n⟩ := h
    refine ⟨.number n, trivial, .number l n, fun t => ?_⟩
    rw [Argument.toDatum, argumentText_int, Given.IsWritable, Given.ints, List.forall_mem_singleton]
    rfl
  | numbers mark h =>
    obtain ⟨ns, hns, -⟩ := exists_ints h
    refine ⟨.numbers ns, trivial, .numbers ns, fun t => ?_⟩
    rw [Argument.toDatum, Argument.toData, Argument.toDatum, hns, argumentText_list]
    rfl
  | @object name init long named takes mark items h hlength =>
    obtain ⟨ns, hns, hints⟩ := exists_ints h
    have hne : name ≠ "" := by
      rintro rfl
      exact absurd long (by decide)
    have hargs : ns ≠ [] := by
      rintro rfl
      exact takes (List.eq_nil_of_length_eq_zero (hlength.symm.trans hints.symm))
    refine ⟨.object name ns, ⟨hne, named, hargs⟩,
      .object long named takes ns (hints.trans hlength), fun t => ?_⟩
    rw [Argument.toDatum, Argument.toData, Argument.toDatum, hns, argumentText_list, if_pos long]
    rfl

/-- The same for a list of arguments. -/
theorem exists_givens {shapes : List Shape} {args : List Argument}
    (h : List.Forall₂ Fits shapes args) :
    ∃ gs : List Given, (∀ g ∈ gs, g.IsNamed) ∧ List.Forall₂ (fun s g => Shows s g.value) shapes gs ∧
      ∀ ts, argumentTexts (Argument.toData args) = .ok ts ↔ (∀ g ∈ gs, g.IsWritable) ∧
        ts = gs.map Given.text := by
  induction h with
  | nil =>
    refine ⟨[], nofun, .nil, fun ts => ?_⟩
    rw [Argument.toData, argumentTexts]
    exact ⟨fun h => ⟨nofun, (Except.ok.inj h).symm⟩, fun h => congrArg Except.ok h.2.symm⟩
  | cons ha _ ih =>
    obtain ⟨g, hnamed, hshows, htext⟩ := ha.exists_given
    obtain ⟨gs, hnameds, hshowss, htexts⟩ := ih
    refine ⟨g :: gs, List.forall_mem_cons.2 ⟨hnamed, hnameds⟩, .cons hshows hshowss, fun ts => ?_⟩
    rw [Argument.toData, argumentTexts, bind_eq_ok]
    constructor
    · rintro ⟨t, ht, h⟩
      obtain ⟨us, hus, h⟩ := bind_eq_ok.1 h
      obtain rfl := Except.ok.inj h
      obtain ⟨hw, rfl⟩ := (htext t).1 ht
      obtain ⟨hws, rfl⟩ := (htexts us).1 hus
      exact ⟨List.forall_mem_cons.2 ⟨hw, hws⟩, rfl⟩
    · rintro ⟨hw, rfl⟩
      obtain ⟨hw, hws⟩ := List.forall_mem_cons.1 hw
      exact ⟨_, (htext _).2 ⟨hw, rfl⟩, bind_eq_ok.2 ⟨_, (htexts _).2 ⟨hws, rfl⟩, rfl⟩⟩

/-- An input with one argument of the right shape for each parameter, and its text, which is read as
one value for each parameter. -/
structure WellFormed (shapes : List Shape) (input : Argument) (text : String) : Prop where
  fits : FitsAll shapes input
  written : inputText input.toDatum = .ok text
  decodes : ∃ values, Input.decode text = .ok values ∧ List.Forall₂ Shows shapes values

theorem FitsAll.wellFormed {shapes : List Shape} {input : Argument} {text : String}
    (h : FitsAll shapes input) (htext : inputText input.toDatum = .ok text) :
    WellFormed shapes input text := by
  refine ⟨h, htext, ?_⟩
  obtain ⟨mark, hargs⟩ := h
  obtain ⟨gs, hnamed, hshows, htexts⟩ := exists_givens hargs
  obtain ⟨ts, hts, ht⟩ := bind_eq_ok.1 htext
  obtain ⟨hw, rfl⟩ := (htexts ts).1 hts
  obtain rfl := Except.ok.inj ht
  exact ⟨gs.map Given.value, Given.decode_inputText hnamed hw, List.forall₂_map_right_iff.2 hshows⟩

end Texts

end Fuzz

end Assay
