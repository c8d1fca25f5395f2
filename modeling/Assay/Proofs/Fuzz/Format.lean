import Assay.Proofs.Fuzz.Shape

/-!
# Inputs are written in place

Writing a list takes its type out and puts it back when the members are written, so an input that
has a text is left as it was. An input has a text unless a number in it is too long; then the list
with the first such number is left without its type. The text is read as the values that the
arguments stand for.
-/

namespace Assay.Fuzz

open Value.Reader

section InPlace

mutual

theorem format_eq :
    ∀ d : Datum, (format d).1 = argumentText d ∧ ∀ t, argumentText d = .ok t → (format d).2 = d
  | .list (base :: items) => by
    obtain ⟨htexts, hleft⟩ := formatAll_eq items
    rw [format, argumentText]
    cases typeLength base with
    | error f => exact ⟨rfl, nofun⟩
    | ok n =>
      rw [ok_bind, ← htexts]
      rw [← htexts] at hleft
      generalize formatAll items = written at hleft ⊢
      rcases written with ⟨f | texts, rest⟩
      · exact ⟨rfl, nofun⟩
      · obtain rfl : rest = items := hleft texts rfl
        by_cases hlong : 1 < n
        · simp only [hlong, if_true]
          exact ⟨rfl, fun _ _ => trivial⟩
        · simp only [hlong, if_false]
          exact ⟨rfl, fun _ _ => trivial⟩
  | .list [] | .null | .bool _ | .int _ | .float _ | .str _ | .tuple _ | .record _ |
      .value .. | .term _ => by
    simp [format]

theorem formatAll_eq : ∀ ds : List Datum,
    (formatAll ds).1 = argumentTexts ds ∧ ∀ ts, argumentTexts ds = .ok ts → (formatAll ds).2 = ds
  | [] => ⟨rfl, fun _ _ => rfl⟩
  | d :: ds => by
    obtain ⟨htext, hleft⟩ := format_eq d
    obtain ⟨htexts, hlefts⟩ := formatAll_eq ds
    rw [formatAll, argumentTexts, ← htext, ← htexts]
    rw [← htext] at hleft
    rw [← htexts] at hlefts
    generalize format d = one at hleft ⊢
    generalize formatAll ds = more at hlefts ⊢
    rcases one with ⟨f | text, e⟩
    · exact ⟨rfl, nofun⟩
    · obtain rfl : e = d := hleft text rfl
      rcases more with ⟨f | texts, es⟩
      · exact ⟨rfl, nofun⟩
      · obtain rfl : es = ds := hlefts texts rfl
        exact ⟨rfl, fun _ _ => rfl⟩

end

/-- An argument that has a text is left as it was. -/
theorem format_of_ok {d : Datum} {t : String} (h : argumentText d = .ok t) :
    format d = (.ok t, d) := by
  obtain ⟨htext, hleft⟩ := format_eq d
  exact Prod.ext (htext.trans h) (hleft t h)

theorem formatInput_of_ok {ds : List Datum} {ts : List String} (h : argumentTexts ds = .ok ts) :
    formatInput (.list ds) = (.ok ("(" ++ ",".intercalate ts ++ ")"), .list ds) := by
  obtain ⟨htexts, hleft⟩ := formatAll_eq ds
  have hall : formatAll ds = (.ok ts, ds) := Prod.ext (htexts.trans h) (hleft ts h)
  rw [formatInput, hall]

/-- The text of an input is the same however it is written. -/
theorem formatInput_text (input : Datum) : (formatInput input).1 = inputText input := by
  cases input with
  | list ds =>
    obtain ⟨htexts, -⟩ := formatAll_eq ds
    simp only [formatInput, inputText, Datum.elements?, ← htexts]
    rcases formatAll ds with ⟨f | ts, rest⟩
    · rfl
    · rfl
  | _ => rfl

end InPlace

/-- What is left of an argument with a number that is too long. -/
def untagged : Datum → Datum
  | .list (_ :: items) => .list items
  | d => d

/-- The value that an argument stands for. -/
inductive StandsFor : Datum → Value → Prop
  | bool (b : Bool) : StandsFor (.bool b) (.ofBool b)
  | int (n : Int) : StandsFor (.int n) (.ofInt n)
  | char {c : Char} (h : c ≠ '\'') :
      StandsFor (.str (String.singleton c)) ⟨.char, .str (String.singleton c)⟩
  | ints (ns : List Int) : StandsFor (.list (.str "I" :: ns.map .int)) (.ofArray .int (ns.map .int))
  | chars {cs : List Char} (h : ∀ c ∈ cs, c ≠ '\'') :
      StandsFor (.list (.str "C" :: (cs.map String.singleton).map .str))
        (.ofArray .char ((cs.map String.singleton).map .str))
  | object {name : String} {ns : List Int} (long : 1 < name.length)
      (named : ∀ c ∈ name.toList, Token.isNameChar c = true) (takes : ns ≠ []) :
      StandsFor (.list (.str name :: ns.map .int))
        ⟨.object ⟨name⟩, .record [("value", .list (ns.map fun n => (Value.ofInt n).toDatum))]⟩

section Arguments

/-- The argument has a text that is read as the value. -/
def IsReadAs (d : Datum) (v : Value) : Prop :=
  ∃ t, argumentText d = .ok t ∧ Written value t.toList v

theorem argumentTexts_chars (cs : List Char) :
    argumentTexts ((cs.map String.singleton).map .str) = .ok (cs.map Value.charText) := by
  induction cs with
  | nil => rfl
  | cons c cs ih =>
    rw [List.map_cons, List.map_cons, argumentTexts, argumentText, ih]
    rfl

theorem isReadAs_chars {cs : List Char} (h : ∀ c ∈ cs, c ≠ '\'') :
    IsReadAs (.list (.str "C" :: (cs.map String.singleton).map .str))
      (.ofArray .char ((cs.map String.singleton).map .str)) := by
  have hitems :
      List.Forall₂ (Written char) (cs.map fun c => ['\'', c, '\'']) (cs.map String.singleton) := by
    rw [List.forall₂_map_left_iff, List.forall₂_map_right_iff, List.forall₂_same]
    exact fun c hc => written_char (h c hc)
  have harray := written_array isComma_tight hitems (.inr rfl)
    (f := fun xs => Value.ofArray .char (xs.map .str)) rfl
  refine ⟨"[C:" ++ ",".intercalate (cs.map Value.charText) ++ "]", ?_, ?_⟩
  · rw [argumentText, typeLength, ok_bind, argumentTexts_chars]
    rfl
  · convert harray using 1
    simp [String.toList_intercalate, Function.comp_def, Value.toList_charText]

theorem StandsFor.isReadAs {d : Datum} {v : Value} (h : StandsFor d v) (hw : d.isWritable = true) :
    IsReadAs d v := by
  cases h with
  | bool b => exact ⟨_, rfl, written_value_bool b⟩
  | int n => exact ⟨_, (argumentText_int n _).2 ⟨hw, rfl⟩, written_value_int hw⟩
  | @char c h =>
    refine ⟨Value.charText c, rfl, ?_⟩
    rw [Value.toList_charText]
    exact written_value_char h
  | ints ns =>
    have hns : ∀ n ∈ ns, Text.isWritable n = true := (Datum.areWritable_map_int ns).1 hw
    exact ⟨_, (argumentText_list "I" ns _).2 ⟨hns, rfl⟩,
      Given.written (g := .numbers ns) trivial hns⟩
  | chars h => exact isReadAs_chars h
  | @object name ns long named takes =>
    have hns : ∀ n ∈ ns, Text.isWritable n = true := (Datum.areWritable_map_int ns).1 hw
    have hne : name ≠ "" := by
      rintro rfl
      exact absurd long (by decide)
    refine ⟨_, (argumentText_list name ns _).2 ⟨hns, rfl⟩, ?_⟩
    rw [if_pos long]
    exact Given.written (g := .object name ns) ⟨hne, named, takes⟩ hns

/-- Arguments are written up to the first that has no text. -/
theorem formatAll_long {ds : List Datum}
    (hok : ∀ d ∈ ds, d.isWritable = true → ∃ t, argumentText d = .ok t)
    (hlong : ∀ d ∈ ds, d.isWritable = false → format d = (.error Text.tooLong, untagged d))
    (hw : Datum.areWritable ds = false) :
    ∃ front d back, ds = front ++ d :: back ∧ Datum.areWritable front = true ∧
      d.isWritable = false ∧
      formatAll ds = (.error Text.tooLong, front ++ untagged d :: back) := by
  induction ds with
  | nil => exact absurd hw (by simp [Datum.areWritable])
  | cons d ds ih =>
    obtain ⟨hokd, hoks⟩ := List.forall_mem_cons.1 hok
    obtain ⟨hlongd, hlongs⟩ := List.forall_mem_cons.1 hlong
    cases hd : d.isWritable with
    | false => exact ⟨[], d, ds, rfl, rfl, hd, by rw [formatAll, hlongd hd]; rfl⟩
    | true =>
      rw [Datum.areWritable, hd, Bool.true_and] at hw
      obtain ⟨front, e, back, rfl, hfront, he, hall⟩ := ih hoks hlongs hw
      obtain ⟨t, ht⟩ := hokd hd
      refine ⟨d :: front, e, back, rfl, by rw [Datum.areWritable, hd, hfront]; rfl, he, ?_⟩
      rw [formatAll, format_of_ok ht, hall]
      rfl

theorem format_int_long {n : Int} (h : Text.isWritable n = false) :
    format (.int n) = (.error Text.tooLong, .int n) := by
  have htext : argumentText (.int n) = .error Text.tooLong := by
    rw [argumentText, Datum.write_int_long h]
    all_goals nofun
  rw [format, htext]
  nofun

/-- The type of a list is lost where a number in the list is too long. -/
theorem format_list_long (tag : String) {ns : List Int}
    (h : Datum.areWritable (ns.map .int) = false) :
    format (.list (.str tag :: ns.map .int)) = (.error Text.tooLong, .list (ns.map .int)) := by
  have hok : ∀ d ∈ ns.map Datum.int, d.isWritable = true → ∃ t, argumentText d = .ok t :=
    List.forall_mem_map.2 fun n _ hn => ⟨_, (argumentText_int n _).2 ⟨hn, rfl⟩⟩
  have hlong : ∀ d ∈ ns.map Datum.int, d.isWritable = false →
      format d = (.error Text.tooLong, untagged d) :=
    List.forall_mem_map.2 fun n _ hn => format_int_long hn
  obtain ⟨front, d, back, hns, -, -, hall⟩ := formatAll_long hok hlong h
  obtain ⟨n, -, rfl⟩ : ∃ n ∈ ns, Datum.int n = d := List.mem_map.1 (by rw [hns]; simp)
  have hsame : untagged (.int n) = .int n := rfl
  rw [hsame, ← hns] at hall
  rw [format, typeLength, hall]

theorem StandsFor.format_long {d : Datum} {v : Value} (h : StandsFor d v)
    (hw : d.isWritable = false) :
    format d = (.error Text.tooLong, untagged d) := by
  cases h with
  | bool b => exact absurd hw (by simp [Datum.isWritable])
  | int n => exact format_int_long hw
  | char h => exact absurd hw (by simp [Datum.isWritable])
  | ints ns => exact format_list_long "I" hw
  | chars h =>
    rw [Datum.isWritable, Datum.areWritable, Datum.areWritable_map_str] at hw
    exact Bool.noConfusion hw
  | object long named takes => exact format_list_long _ hw

variable {ds : List Datum} {vs : List Value}

theorem StandsFor.of_mem (h : List.Forall₂ StandsFor ds vs) : ∀ d ∈ ds, ∃ v, StandsFor d v := by
  induction h with
  | nil => exact nofun
  | cons hd _ ih => exact List.forall_mem_cons.2 ⟨⟨_, hd⟩, ih⟩

theorem exists_texts (h : List.Forall₂ StandsFor ds vs) (hw : Datum.areWritable ds = true) :
    ∃ ts, argumentTexts ds = .ok ts ∧ List.Forall₂ (Written value) (ts.map String.toList) vs := by
  induction h with
  | nil => exact ⟨[], rfl, .nil⟩
  | cons hd _ ih =>
    rw [Datum.areWritable, Bool.and_eq_true] at hw
    obtain ⟨t, ht, hwritten⟩ := hd.isReadAs hw.1
    obtain ⟨ts, hts, hmore⟩ := ih hw.2
    refine ⟨t :: ts, ?_, .cons hwritten hmore⟩
    rw [argumentTexts, ht, ok_bind, hts]
    rfl

theorem formatInput_long (h : List.Forall₂ StandsFor ds vs) (hw : Datum.areWritable ds = false) :
    ∃ front d back, ds = front ++ d :: back ∧ Datum.areWritable front = true ∧
      d.isWritable = false ∧
      formatInput (.list ds) = (.error Text.tooLong, .list (front ++ untagged d :: back)) := by
  have hvalue := StandsFor.of_mem h
  have hok : ∀ d ∈ ds, d.isWritable = true → ∃ t, argumentText d = .ok t := by
    intro d hd hwd
    obtain ⟨v, hv⟩ := hvalue d hd
    obtain ⟨t, ht, -⟩ := hv.isReadAs hwd
    exact ⟨t, ht⟩
  have hlong : ∀ d ∈ ds, d.isWritable = false → format d = (.error Text.tooLong, untagged d) := by
    intro d hd hwd
    obtain ⟨v, hv⟩ := hvalue d hd
    exact hv.format_long hwd
  obtain ⟨front, d, back, hds, hfront, hd, hall⟩ := formatAll_long hok hlong hw
  exact ⟨front, d, back, hds, hfront, hd, by rw [formatInput, hall]⟩

end Arguments

section Shapes

theorem Fits.exists_standsFor {s : Shape} {a : Argument} (h : Fits s a) :
    ∃ v, StandsFor a.toDatum v := by
  cases h with
  | number l h =>
    obtain ⟨n⟩ := h
    exact ⟨_, .int n⟩
  | numbers mark h =>
    obtain ⟨ns, hns, -⟩ := exists_ints h
    rw [Argument.toDatum, Argument.toData, hns]
    exact ⟨_, .ints ns⟩
  | object long named takes mark h hlength =>
    obtain ⟨ns, hns, hints⟩ := exists_ints h
    have hargs : ns ≠ [] := by
      rintro rfl
      exact takes (List.eq_nil_of_length_eq_zero (hlength.symm.trans hints.symm))
    rw [Argument.toDatum, Argument.toData, hns]
    exact ⟨_, .object long named hargs⟩

variable {shapes : List Shape} {input : Argument}

theorem FitsAll.exists_standsFor (h : FitsAll shapes input) :
    ∃ ds vs, input.toDatum = .list ds ∧ List.Forall₂ StandsFor ds vs := by
  obtain ⟨mark, hargs⟩ := h
  rename_i args
  refine ⟨Argument.toData args, ?_⟩
  induction hargs with
  | nil => exact ⟨[], rfl, .nil⟩
  | cons ha _ ih =>
    obtain ⟨v, hv⟩ := ha.exists_standsFor
    obtain ⟨vs, -, hvs⟩ := ih
    exact ⟨v :: vs, rfl, .cons hv hvs⟩

/-- An input that fits has a text if no number in it is too long. -/
theorem FitsAll.exists_text (h : FitsAll shapes input) (hw : input.toDatum.isWritable = true) :
    ∃ text, WellFormed shapes input text := by
  obtain ⟨ds, vs, hds, hstand⟩ := h.exists_standsFor
  rw [hds] at hw
  obtain ⟨ts, hts, -⟩ := exists_texts hstand hw
  have htext : inputText input.toDatum = .ok ("(" ++ ",".intercalate ts ++ ")") := by
    rw [hds, ← formatInput_text, formatInput_of_ok hts]
  exact ⟨_, h.wellFormed htext⟩

theorem FitsAll.inputText_long (h : FitsAll shapes input) (hw : input.toDatum.isWritable = false) :
    inputText input.toDatum = .error Text.tooLong := by
  obtain ⟨ds, vs, hds, hstand⟩ := h.exists_standsFor
  rw [hds] at hw ⊢
  obtain ⟨front, d, back, -, -, -, hformat⟩ := formatInput_long hstand hw
  rw [← formatInput_text, hformat]

end Shapes

/-- An input is left as it was, and its text is read as the values that its arguments stand for,
unless a number in it is too long to be written. Then it has no text, and the first argument with
such a number has lost its type if it is a list. -/
theorem formatted_input_reads_back {ds : List Datum} {vs : List Value}
    (h : List.Forall₂ StandsFor ds vs) :
    (Datum.areWritable ds = true →
      ∃ text, formatInput (.list ds) = (.ok text, .list ds) ∧ Input.decode text = .ok vs) ∧
    (Datum.areWritable ds = false →
      ∃ front d back, ds = front ++ d :: back ∧ Datum.areWritable front = true ∧
        d.isWritable = false ∧
        formatInput (.list ds) = (.error Text.tooLong, .list (front ++ untagged d :: back))) := by
  constructor
  · intro hw
    obtain ⟨ts, hts, hwritten⟩ := exists_texts h hw
    refine ⟨_, formatInput_of_ok hts, Input.decode_parenthesised isComma_tight hwritten ?_⟩
    simp [String.toList_intercalate]
  · exact formatInput_long h

/-- Arguments with types among the members, and with characters that also stand between
arguments. -/
def mixedArguments : List Datum :=
  [.list [.str "C", .str "C", .str ",", .str ")", .str "]"],
    .list [.str "math/Cell", .int (-7), .int 0], .bool true, .list [.str "I", .int 3],
    .str "(", .int (-12)]

def mixedValues : List Value :=
  [.ofArray .char [.str "C", .str ",", .str ")", .str "]"],
    ⟨.object ⟨"math/Cell"⟩,
      .record [("value", .list [(Value.ofInt (-7)).toDatum, (Value.ofInt 0).toDatum])]⟩,
    .ofBool true, .ofArray .int [.int 3], ⟨.char, .str "("⟩, .ofInt (-12)]

theorem mixed_standsFor : List.Forall₂ StandsFor mixedArguments mixedValues := by
  have hquoted : ∀ c ∈ ['C', ',', ')', ']'], c ≠ '\'' := by simp
  have hnamed : ∀ c ∈ "math/Cell".toList, Token.isNameChar c = true :=
    List.all_eq_true.1 (by decide)
  refine .cons (.chars hquoted)
    (.cons ?_ (.cons (.bool true) (.cons (.ints [3]) (.cons ?_ (.cons (.int (-12)) .nil)))))
  · have hargs : [(-7 : Int), 0] ≠ [] := by simp
    exact .object (by decide) hnamed hargs
  · exact .char (c := '(') (by decide)

theorem mixed_input_reads_back :
    Datum.areWritable mixedArguments = true ∧
      ∃ text, formatInput (.list mixedArguments) = (.ok text, .list mixedArguments) ∧
        Input.decode text = .ok mixedValues := by
  have hcell : Text.isWritable (-7) = true ∧ Text.isWritable 0 = true :=
    ⟨Text.isWritable_iff.2 (by decide), Text.isWritable_iff.2 (by decide)⟩
  have hthree : Text.isWritable 3 = true := Text.isWritable_iff.2 (by decide)
  have hlast : Text.isWritable (-12) = true := Text.isWritable_iff.2 (by decide)
  have hw : Datum.areWritable mixedArguments = true := by
    simp [mixedArguments, Datum.areWritable, Datum.isWritable, hcell, hthree, hlast]
  exact ⟨hw, (formatted_input_reads_back mixed_standsFor).1 hw⟩

/-- The least number that is too long to be written takes the type from the array that it stands
in. -/
theorem long_number_loses_type :
    formatInput (.list [.list [.str "I", .int 1, .int Text.writeBound], .bool true]) =
      (.error Text.tooLong, .list [.list [.int 1, .int Text.writeBound], .bool true]) := by
  have hlong : Datum.areWritable ([1, (Text.writeBound : Int)].map .int) = false := by
    rw [← Bool.not_eq_true, Datum.areWritable_map_int]
    intro hall
    have hbound := hall Text.writeBound (List.mem_cons_of_mem _ (List.mem_singleton_self _))
    rw [Text.isWritable_writeBound] at hbound
    exact Bool.noConfusion hbound
  have hlist := format_list_long "I" hlong
  simp only [List.map_cons, List.map_nil] at hlist
  rw [formatInput, formatAll, hlist]

end Assay.Fuzz
