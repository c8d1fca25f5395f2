import Assay.Proofs.Input

/-!
# Arguments of constructors

`new Name(…)` is one token up to its first `)`, and the text between the parentheses is cut at the
commas. Each piece is read by the reader that knows signs. When the object is made, the same piece
is read once more by the reader that does not: the two give different answers for negative numbers,
and for nothing else.
-/

namespace Assay

namespace Text

/-- What is left does not end with an element that is dropped. -/
theorem last_dropEnds {α : Type} (p : α → Bool) (xs : List α) :
    ∀ x ∈ (dropEnds p xs).getLast?, p x = false := by
  intro x hx
  have hhead := List.head?_dropWhile_not p (xs.dropWhile p).reverse
  rw [dropEnds, dropEnd, List.getLast?_reverse] at hx
  rw [hx] at hhead
  exact hhead

theorem toList_of_trim {s : String} (h : trim s = s) : dropEnds isBlank s.toList = s.toList := by
  conv_rhs => rw [← h, trim, String.toList_ofList]

end Text

namespace Value

namespace Argument

theorem dropFeed_of_trim {s : String} (h : Text.trim s = s) : dropFeed s.toList = s.toList := by
  unfold dropFeed
  split
  next hlast =>
    rw [← Text.toList_of_trim h] at hlast
    exact absurd (Text.last_dropEnds Text.isBlank s.toList '\n' hlast) (by decide)
  · rfl

theorem array?_eq_none {cs : List Char} (h : '[' ∉ cs) : array? cs = none := by
  induction cs with
  | nil => rfl
  | cons c cs ih =>
    obtain ⟨hc, hcs⟩ := not_or.1 (List.mem_cons.not.1 h)
    rw [array?]
    · exact ih hcs
    · intro _ _ hbracket
      exact absurd hbracket.symm hc

/-- A minus sign with digits after it. -/
def IsSigned (cs : List Char) : Prop := ∃ ds, cs = '-' :: ds ∧ ds ≠ [] ∧ ∀ c ∈ ds, c.isDigit = true

/-- The sign is all that a reader may know or not. -/
theorem isNumber_signed {cs : List Char} (hfeed : dropFeed cs = cs) (h : ¬ IsSigned cs) :
    isNumber true cs = isNumber false cs := by
  rw [isNumber, isNumber, hfeed]
  cases cs with
  | nil => rfl
  | cons c ds =>
    by_cases hc : c = '-'
    · subst hc
      have hnot : (!ds.isEmpty && ds.all Char.isDigit) = false := by
        rw [Bool.eq_false_iff]
        intro hall
        obtain ⟨hne, hd⟩ := Bool.and_eq_true_iff.1 hall
        exact h ⟨ds, rfl, by simpa using hne, List.all_eq_true.1 hd⟩
      simpa [Char.isDigit] using hnot
    · simp [hc]

theorem read_of_not_signed {s : String} (htrim : Text.trim s = s) (h : ¬ IsSigned s.toList) :
    read true s = read false s := by
  rw [read, read, isNumber_signed (dropFeed_of_trim htrim) h]

section Signed

variable {s : String} {ds : List Char} (hs : s.toList = '-' :: ds) (hne : ds ≠ [])
  (hd : ∀ c ∈ ds, c.isDigit = true)

include hs hd

theorem dropFeed_signed : dropFeed s.toList = s.toList := by
  unfold dropFeed
  split
  next hlast =>
    have hmem : '\n' ∈ '-' :: ds := hs ▸ List.mem_of_getLast? hlast
    rcases List.mem_cons.1 hmem with hmem | hmem
    · exact absurd hmem (by decide)
    · exact absurd (hd _ hmem) (by decide)
  · rfl

include hne

theorem read_signed : read true s = (Text.readInt s).map ofInt := by
  have hnumber : isNumber true s.toList = true := by
    rw [isNumber, dropFeed_signed hs hd, hs]
    simpa [hne] using hd
  rw [read, if_pos hnumber]

/-- Without signs, a negative number is neither a number nor an array nor a single character. -/
theorem read_unsigned : read false s = .error unsupported := by
  have hnumber : isNumber false s.toList = false := by
    rw [isNumber, dropFeed_signed hs hd, hs]
    simp [show '-'.isDigit = false by decide]
  have harray : array? s.toList = none := by
    refine array?_eq_none fun hmem => ?_
    rw [hs] at hmem
    rcases List.mem_cons.1 hmem with hmem | hmem
    · exact absurd hmem (by decide)
    · exact absurd (hd _ hmem) (by decide)
  have hcharacter : isCharacter s.toList = false := by
    obtain ⟨d, ds, rfl⟩ := List.exists_cons_of_ne_nil hne
    have hfeed : d ≠ '\n' := by
      rintro rfl
      exact absurd (hd '\n' (by simp)) (by decide)
    rw [hs, isCharacter]
    · rintro _ hsingle
      simp at hsingle
    · rintro _ htwo
      simp [hfeed] at htwo
  simp only [read, hnumber, harray, hcharacter, Bool.false_eq_true, if_false]

end Signed

/-- A negative number that is short enough to be read. -/
def IsNegative (s : String) : Prop :=
  ∃ ds, s.toList = '-' :: ds ∧ ds ≠ [] ∧ (∀ c ∈ ds, c.isDigit = true) ∧ ds.length ≤ Text.maxDigits

theorem IsNegative.read_eq {s : String} (h : IsNegative s) :
    (∃ n : Int, read true s = .ok (ofInt n)) ∧ read false s = .error unsupported := by
  obtain ⟨ds, hs, hne, hd, hl⟩ := h
  have hsign : s.toList = (if true then ['-'] else []) ++ ds := hs
  have hread := Text.readInt_eq hsign hne hd hl
  exact ⟨⟨_, by rw [read_signed hs hne hd, hread]; rfl⟩, read_unsigned hs hne hd⟩

/-- Both readers give the same value, or both fail, unless the text is a negative number. -/
theorem toOption_read_eq_iff {s : String} (htrim : Text.trim s = s) :
    (read true s).toOption = (read false s).toOption ↔ ¬ IsNegative s := by
  constructor
  · intro hsame hnegative
    obtain ⟨⟨n, hsigned⟩, hunsigned⟩ := hnegative.read_eq
    rw [hsigned, hunsigned] at hsame
    cases hsame
  · intro hnot
    by_cases hsigned : IsSigned s.toList
    · -- the number is too long, and fails in both readers, for different reasons
      obtain ⟨ds, hs, hne, hd⟩ := hsigned
      have hlong : Text.maxDigits < ds.length := by
        refine Nat.lt_of_not_le fun hle => hnot ⟨ds, hs, hne, hd, hle⟩
      have hsign : s.toList = (if true then ['-'] else []) ++ ds := hs
      rw [read_signed hs hne hd,
        Text.readInt_of_isDecimal hsign hne fun c hc => Text.isDecimal_of_isDigit (hd c hc),
        if_pos hlong, read_unsigned hs hne hd]
      rfl
    · rw [read_of_not_signed htrim hsigned]

end Argument

namespace Reader

theorem spells_objectText {name inner : String}
    (hname : ∀ c ∈ name.toList, Token.isNameChar c = true) (hne : name ≠ "")
    (hclose : ')' ∉ inner.toList) :
    Token.Spells (objectText name inner).toList [⟨.object, objectText name inner⟩] := by
  have h := Token.Spells.of_form (.object (mt String.toList_eq_nil_iff.1 hne) hname hclose)
  rwa [← toList_objectText, String.ofList_toList] at h

/-- The object with one argument. -/
def objectValue (name : String) (argument : Value) : Value :=
  ⟨.object ⟨name⟩, .record [("value", .list [argument.toDatum])]⟩

theorem run_values_single {t : Token} {input : String} {x : Except Fault Value}
    (h : value.run input [t] = (x, [])) : (values.run input [t]).1 = x.map fun v => [v] := by
  rw [values, items, run_bind (run_head input _)]
  simp only [List.head?_cons, reduceCtorEq, if_false]
  cases x with
  | error e =>
    rw [run_bind_error h]
    rfl
  | ok v =>
    rw [run_bind h, run_bind (run_get input [])]
    rfl

end Reader

open Reader (objectText objectValue)

/-- A text without commas is the one argument of an object, and is read with signs. -/
theorem parse_objectText {name s : String} (hname : ∀ c ∈ name.toList, Token.isNameChar c = true)
    (hne : name ≠ "") (htrim : Text.trim s = s) (hcomma : ',' ∉ s.toList)
    (hclose : ')' ∉ s.toList) :
    parse (objectText name s) = (Argument.read true s).map fun v => [objectValue name v] := by
  have hscan : Token.scan (objectText name s) = [⟨.object, objectText name s⟩] := by
    have hspells := Reader.spells_objectText hname hne hclose [] (by simp [Token.Stops])
    simpa [Token.scan, Token.scanFrom] using hspells
  have hparts : Reader.objectParts (objectText name s).toList = (name, [s]) := by
    rw [Reader.objectParts_objectText hname, Reader.argumentTexts, Text.cutAt_of_not_mem hcomma]
    simp [htrim]
  rw [parse, hscan, Reader.run_values_single (Reader.run_value_object hparts _ [])]
  cases hread : Argument.read true s with
  | ok v => simp [hread, objectValue, Except.map]
  | error e => simp [hread, Except.map]

/-- The two readers of the argument of a constructor agree on every text but the negative numbers,
which only one of them reads. -/
theorem constructor_readers_agree_iff {name s : String}
    (hname : ∀ c ∈ name.toList, Token.isNameChar c = true) (hne : name ≠ "")
    (htrim : Text.trim s = s) (hcomma : ',' ∉ s.toList) (hclose : ')' ∉ s.toList) :
    parse (objectText name s) = (Argument.read true s).map (fun v => [objectValue name v]) ∧
      ((Argument.read true s).toOption = (Argument.read false s).toOption ↔
        ¬ Argument.IsNegative s) ∧
      (Argument.IsNegative s →
        (∃ n : Int, Argument.read true s = .ok (ofInt n)) ∧
        Argument.read false s = .error Argument.unsupported) :=
  ⟨parse_objectText hname hne htrim hcomma hclose, Argument.toOption_read_eq_iff htrim,
    Argument.IsNegative.read_eq⟩

theorem constructor_readers_agree_on_array :
    parse "new math.Cell([I:7])" =
      .ok [objectValue "math.Cell" (ofArray .int [(ofInt 7).toDatum])] ∧
      (Argument.read true "[I:7]").toOption = (Argument.read false "[I:7]").toOption ∧
      ¬ Argument.IsNegative "[I:7]" := by
  have hname : ∀ c ∈ "math.Cell".toList, Token.isNameChar c = true := List.all_eq_true.1 (by decide)
  have htrim : Text.trim "[I:7]" = "[I:7]" := by decide
  obtain ⟨hparse, hagree, -⟩ :=
    constructor_readers_agree_iff hname (by decide) htrim (by decide) (by decide)
  have hread : Argument.read true "[I:7]" = .ok (ofArray .int [(ofInt 7).toDatum]) := by rfl
  have hnot : ¬ Argument.IsNegative "[I:7]" := by
    rintro ⟨ds, hs, -⟩
    exact absurd (List.cons.inj hs).1 (by decide)
  rw [hread] at hparse
  exact ⟨hparse, hagree.2 hnot, hnot⟩

/-- The object is read, but what it is made from is not. -/
theorem negative_argument_read_once :
    parse "new math.Cell(-5)" = .ok [objectValue "math.Cell" (ofInt (-5))] ∧
      Argument.read true "-5" = .ok (ofInt (-5)) ∧
      Argument.read false "-5" = .error Argument.unsupported :=
  ⟨by rfl, by rfl, by rfl⟩

end Value

end Assay
