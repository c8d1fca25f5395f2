import Assay.Proofs.Constructor

/-!
# Arguments of integers

An argument that is a number, an array of numbers or an object made from numbers has a text, and a
list of such texts in parentheses is read as the values that they stand for.
-/

namespace Assay

/-- An argument made of numbers: one, an array of them, or an object with them as the arguments of
its constructor. -/
inductive Given where
  | number (n : Int)
  | numbers (ns : List Int)
  | object (name : String) (ns : List Int)
  deriving DecidableEq

namespace Given

def ints : Given → List Int
  | number n => [n]
  | numbers ns => ns
  | object _ ns => ns

/-- Numbers with commas between them. -/
def listed (ns : List Int) : String := ",".intercalate (ns.map toString)

def text : Given → String
  | number n => toString n
  | numbers ns => "[I:" ++ listed ns ++ "]"
  | object name ns => "new " ++ name ++ "(" ++ listed ns ++ ")"

def value : Given → Value
  | number n => .ofInt n
  | numbers ns => .ofArray .int (ns.map .int)
  | object name ns =>
    ⟨.object ⟨name⟩, .record [("value", .list (ns.map fun n => (Value.ofInt n).toDatum))]⟩

/-- Arguments in parentheses, with commas between them. -/
def inputText (gs : List Given) : String := "(" ++ ",".intercalate (gs.map text) ++ ")"

/-- No number is too long to be written. -/
def IsWritable (g : Given) : Prop := ∀ n ∈ g.ints, Text.isWritable n = true

/-- An object has a name of the characters that names are made of, and at least one argument. -/
def IsNamed : Given → Prop
  | object name ns => name ≠ "" ∧ (∀ c ∈ name.toList, Token.isNameChar c = true) ∧ ns ≠ []
  | _ => True

instance (g : Given) : Decidable g.IsWritable :=
  inferInstanceAs (Decidable (∀ n ∈ g.ints, Text.isWritable n = true))

instance : (g : Given) → Decidable g.IsNamed
  | number _ => .isTrue trivial
  | numbers _ => .isTrue trivial
  | object name ns =>
    haveI := List.decidableBAll (fun c => Token.isNameChar c = true) name.toList
    inferInstanceAs (Decidable
      (name ≠ "" ∧ (∀ c ∈ name.toList, Token.isNameChar c = true) ∧ ns ≠ []))

theorem toList_listed (ns : List Int) :
    (listed ns).toList = [','].intercalate (ns.map fun n => (toString n).toList) := by
  simp [listed, String.toList_intercalate, Function.comp_def]

theorem not_mem_listed {c : Char} (hc : c.isDigit = false) (hminus : c ≠ '-') (hcomma : c ≠ ',')
    (ns : List Int) :
    c ∉ (listed ns).toList := by
  rw [toList_listed]
  exact Text.not_mem_intercalate (by simpa using hcomma)
    (List.forall_mem_map.2 fun n _ => Text.not_mem_toString hc hminus n)

end Given

namespace Value

theorem isBlank_of_mem_toString {n : Int} {c : Char} (h : c ∈ (toString n).toList) :
    Text.isBlank c = false := by
  cases hd : c.isDigit with
  | true => exact Text.isBlank_of_isDigit hd
  | false =>
    by_cases hminus : c = '-'
    · rw [hminus]
      decide
    · exact absurd h (Text.not_mem_toString hd hminus n)

theorem trim_toString (n : Int) : Text.trim (toString n) = toString n := by
  rw [Text.trim, Text.dropEnds_eq_self fun c hc => isBlank_of_mem_toString hc, String.ofList_toList]

/-- The texts of numbers are found between the commas. -/
theorem cutAt_listed {ns : List Int} (h : ns ≠ []) :
    (Text.cutAt ',' (Given.listed ns).toList).map (fun a => Text.trim (String.ofList a)) =
      ns.map toString := by
  obtain ⟨n, ns, rfl⟩ := List.exists_cons_of_ne_nil h
  have hcomma : ∀ q ∈ (n :: ns).map (fun n => (toString n).toList), ',' ∉ q :=
    List.forall_mem_map.2 fun m _ => Text.not_mem_toString (by decide) (by decide) m
  have hcut : Text.cutAt ',' ([','].intercalate ((n :: ns).map fun n => (toString n).toList)) =
      (n :: ns).map fun n => (toString n).toList := Text.cutAt_intercalate hcomma
  rw [Given.toList_listed, hcut, List.map_map]
  refine List.map_congr_left fun m _ => ?_
  rw [Function.comp_apply, String.ofList_toList, trim_toString]

namespace Argument

theorem isNumber_toString {signed : Bool} {n : Int} (h : signed = true ∨ 0 ≤ n) :
    isNumber signed (toString n).toList = true := by
  have hlist := Text.toList_toString_int n
  have hdigits : ∀ c ∈ Nat.toDigits 10 n.natAbs, c.isDigit = true :=
    fun c hc => Text.isDigit_toDigits hc
  have hne : Nat.toDigits 10 n.natAbs ≠ [] := Nat.toDigits_ne_nil
  have hfeed : dropFeed (toString n).toList = (toString n).toList := by
    unfold dropFeed
    split
    next hlast =>
      exact absurd (List.mem_of_getLast? hlast) (Text.not_mem_toString (by decide) (by decide) n)
    · rfl
  by_cases hn : n < 0
  · have hsigned : signed = true := h.resolve_right (by omega)
    rw [if_pos hn] at hlist
    rw [isNumber, hfeed, hlist, hsigned]
    simpa [hne] using hdigits
  · rw [if_neg hn, List.nil_append] at hlist
    obtain ⟨d, ds, hds⟩ := List.exists_cons_of_ne_nil hne
    have hminus : d ≠ '-' := by
      rintro rfl
      exact absurd (hdigits '-' (by simp [hds])) (by decide)
    rw [isNumber, hfeed, hlist, hds]
    rw [hds] at hdigits
    simpa [hminus] using hdigits

theorem read_toString {signed : Bool} {n : Int} (h : signed = true ∨ 0 ≤ n)
    (hw : Text.isWritable n = true) :
    read signed (toString n) = .ok (ofInt n) := by
  simp only [read, isNumber_toString h, if_true, Text.readInt_toString hw]
  rfl

theorem mapM_read {signed : Bool} {ns : List Int} (h : signed = true ∨ ∀ n ∈ ns, 0 ≤ n)
    (hw : ∀ n ∈ ns, Text.isWritable n = true) :
    (ns.map toString).mapM (read signed) = .ok (ns.map ofInt) := by
  rw [mapM_eq_ok, List.forall₂_map_left_iff, List.forall₂_map_right_iff, List.forall₂_same]
  exact fun n hn => read_toString (h.imp_right fun hall => hall n hn) (hw n hn)

end Argument

namespace Reader

section Object

variable {name : String} {ns : List Int} (hname : ∀ c ∈ name.toList, Token.isNameChar c = true)

include hname

theorem spells_object (hne : name ≠ "") :
    Token.Spells (Given.object name ns).text.toList [⟨.object, (Given.object name ns).text⟩] :=
  spells_objectText hname hne (Given.not_mem_listed (by decide) (by decide) (by decide) ns)

theorem objectParts_text (hargs : ns ≠ []) :
    objectParts (Given.object name ns).text.toList = (name, ns.map toString) := by
  rw [Given.text, ← objectText, objectParts_objectText hname, argumentTexts, cutAt_listed hargs]

theorem reads_object (hargs : ns ≠ []) (hw : ∀ n ∈ ns, Text.isWritable n = true) :
    Reads value [⟨.object, (Given.object name ns).text⟩] (Given.object name ns).value := by
  intro input rest
  have hread : (ns.map toString).mapM (Argument.read true) = .ok (ns.map ofInt) :=
    Argument.mapM_read (.inl rfl) hw
  rw [List.singleton_append, run_value_object (objectParts_text hname hargs), hread]
  simp [Except.map, Given.value, Function.comp_def]

end Object

end Reader

end Value

namespace Given

open Value.Reader

theorem written_ints {ns : List Int} (h : ∀ n ∈ ns, Text.isWritable n = true) :
    List.Forall₂ (Written int) (ns.map fun n => (toString n).toList) ns := by
  rw [List.forall₂_map_left_iff, List.forall₂_same]
  exact fun n hn => written_int (h n hn)

/-- The text of an argument is read as its value. -/
theorem written {g : Given} (hnamed : g.IsNamed) (hw : g.IsWritable) :
    Written Value.Reader.value g.text.toList g.value := by
  cases g with
  | number n => exact written_value_int (hw n (List.mem_singleton_self n))
  | numbers ns =>
    have harray := written_array isComma_tight (written_ints hw) (.inl rfl)
      (f := fun xs => Value.ofArray .int (xs.map .int)) rfl
    rwa [show (numbers ns).text.toList =
      ['[', 'I', ':'] ++ ([','].intercalate (ns.map fun n => (toString n).toList) ++ [']'])
      by rw [← toList_listed]; simp [text]]
  | object name ns =>
    obtain ⟨hne, hname, hargs⟩ := hnamed
    exact .of_token (spells_object hname hne) Token.Kind.noConfusion (reads_object hname hargs hw)

/-- Arguments in parentheses are read as their values. -/
theorem decode_inputText {gs : List Given} (hnamed : ∀ g ∈ gs, g.IsNamed)
    (hw : ∀ g ∈ gs, g.IsWritable) :
    Input.decode (inputText gs) = .ok (gs.map value) := by
  have hwritten :
      List.Forall₂ (Written Value.Reader.value) (gs.map fun g => g.text.toList) (gs.map value) := by
    rw [List.forall₂_map_left_iff, List.forall₂_map_right_iff, List.forall₂_same]
    exact fun g hg => written (hnamed g hg) (hw g hg)
  refine Input.decode_parenthesised isComma_tight hwritten ?_
  simp [inputText, String.toList_intercalate, Function.comp_def]

end Given

end Assay
