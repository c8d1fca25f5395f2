import Assay.Proofs.Input
import Assay.Proofs.MethodId

/-!
# Cases are read back

The line of a case is divided again at the marks that were put between its parts: the method ends
at the first blank, the input at the first `)`, and the result is the rest of the line. Each part is
then read back by itself. The only numbers for which this fails are those that are too long to be
written.
-/

namespace Assay.Case

/-- What the line of a case must not hold for its parts to be found again. -/
structure IsPlain (c : Case) : Prop where
  method : c.method.IsPlain
  input : ∀ v ∈ c.input, v.IsPlain
  result : '\n' ∉ c.result.toList

/-- The parts of a line are found again, and what follows a line feed is passed over. -/
theorem parts?_append {id args tail : List Char} (hid : ' ' ∉ id) (hargs : ')' ∉ args) :
    parts? (id ++ ' ' :: '(' :: (args ++ ')' :: ' ' :: '-' :: '>' :: ' ' :: tail)) =
      some (id, '(' :: args ++ [')'], Text.firstLine tail) := by
  have htake : (id ++ ' ' :: '(' :: (args ++ ')' :: ' ' :: '-' :: '>' :: ' ' :: tail)).takeWhile
      (· ≠ ' ') = id :=
    Text.takeWhile_append_stop (fun c hc => by simpa using fun e : c = ' ' => hid (e ▸ hc))
      (by simp) _
  have harrow : Text.after? [' ', '-', '>', ' '] (' ' :: '-' :: '>' :: ' ' :: tail) = some tail :=
    Text.after?_eq_some_iff.2 rfl
  have hguard : (guard (' ' :: '(' :: (args ++ ')' :: ' ' :: '-' :: '>' :: ' ' :: tail) ≠ []) :
      Option Unit) = some () :=
    if_pos (List.cons_ne_nil _ _)
  rw [parts?, htake, List.drop_left, hguard]
  simp [Text.cutAtFirst?_append _ hargs, harrow]

theorem encode_eq {c : Case} {text : String} (h : c.input.encode = .ok text) :
    c.encode = .ok (c.method.encode ++ " " ++ text ++ " -> " ++ c.result) := by
  rw [Case.encode, h]
  rfl

section Parts

variable {c : Case} (hblank : ' ' ∉ c.method.encode.toList)
  (hmethod : MethodId.decode c.method.encode = .ok c.method) (hinput : ∀ v ∈ c.input, v.IsPlain)
  (hw : c.input.IsWritable)
include hblank hmethod hinput hw

/-- A line that begins with a case whose parts are read back is read as the case. -/
theorem decode_of_parts {text line : String} {tail : List Char} (htext : c.input.encode = .ok text)
    (hline : line.toList = c.method.encode.toList ++
      ' ' :: (text.toList ++ ' ' :: '-' :: '>' :: ' ' :: tail))
    (hresult : Text.firstLine tail = c.result.toList) : Case.decode line = .ok c := by
  obtain ⟨text', args, hencode, hargs', hargs, hdecode⟩ := Input.encode_decode hinput hw
  obtain rfl := Except.ok.inj (hencode.symm.trans htext)
  have hparts : parts? line.toList =
      some (c.method.encode.toList, '(' :: args ++ [')'], c.result.toList) := by
    rw [hline, hargs', ← hresult, ← parts?_append hblank hargs]
    simp
  have hinput : String.ofList ('(' :: args ++ [')']) = text' := by
    rw [List.cons_append, ← hargs', String.ofList_toList]
  rw [Case.decode, hparts]
  simp only [String.ofList_toList, hinput, hmethod, hdecode, ok_bind]
  rfl

/-- The line of a case whose parts are read back is read back. -/
theorem decode_encode_of_parts (hresult : '\n' ∉ c.result.toList) :
    ∃ line, c.encode = .ok line ∧ Case.decode line = .ok c := by
  obtain ⟨text, -, hencode, -⟩ := Input.encode_decode hinput hw
  refine ⟨_, encode_eq hencode, decode_of_parts hblank hmethod hinput hw hencode ?_
    (Text.firstLine_eq_self hresult)⟩
  simp

end Parts

theorem decode_encode {c : Case} (h : c.IsPlain) (hw : c.input.IsWritable) :
    ∃ line, c.encode = .ok line ∧ Case.decode line = .ok c :=
  decode_encode_of_parts (h.method.not_mem_encode (.inl rfl)) h.method.decode_encode
    h.input hw h.result

/-- Reading undoes writing for cases and for each of their parts, except that a number of too many
digits can not be written at all. -/
theorem reads_back_iff_writable (c : Case) (h : c.IsPlain) :
    MethodId.decode c.method.encode = .ok c.method ∧
    ((∃ text, c.input.encode = .ok text ∧ Input.decode text = .ok c.input) ↔ c.input.IsWritable) ∧
    ((∃ line, c.encode = .ok line ∧ Case.decode line = .ok c) ↔ c.input.IsWritable) := by
  refine ⟨h.method.decode_encode, ⟨?_, fun hw => ?_⟩, ?_, decode_encode h⟩
  · rintro ⟨text, hencode, -⟩
    by_contra hw
    obtain ⟨e, he⟩ := Input.encode_eq_error h.input hw
    simp [he] at hencode
  · obtain ⟨text, -, hencode, -, -, hdecode⟩ := Input.encode_decode h.input hw
    exact ⟨text, hencode, hdecode⟩
  · rintro ⟨line, hencode, -⟩
    by_contra hw
    obtain ⟨e, he⟩ := Input.encode_eq_error h.input hw
    simp [Case.encode, he] at hencode

/-- A case with an input of every kind. -/
def mixed : Case where
  method := ⟨⟨"jpamb.cases.Arrays"⟩, "lambda$0", [.int, .array (.array .char), .double],
    some (.array .long)⟩
  input := [.ofInt (-12), .ofArray .int ([0, -7].map .int), .ofBool true, ⟨.char, .str "]"⟩,
    .ofArray .char ((['(', ' ', '-'].map String.singleton).map .str)]
  result := "a -> (b) -> c"

theorem isPlain_mixed : mixed.IsPlain where
  method := ⟨by decide, by simp [mixed], by simp [mixed], by decide, by decide⟩
  input := by
    simp only [mixed, List.forall_mem_cons]
    refine ⟨.int _, .ints _, .bool _, .char ']' ⟨by decide, by decide⟩,
      .chars _ fun c hc => ?_, by simp⟩
    revert c
    simp [Value.isPlainChar]
  result := by decide

theorem reads_back_mixed :
    mixed.IsPlain ∧ ∃ line, mixed.encode = .ok line ∧ Case.decode line = .ok mixed :=
  ⟨isPlain_mixed, (reads_back_iff_writable mixed isPlain_mixed).2.2.2 (by
    simp only [Input.IsWritable, mixed, List.forall_mem_cons]
    exact ⟨Text.isWritable_iff.2 (by decide), (Datum.areWritable_map_int _).2 fun n hn => by
      rcases List.mem_pair.1 hn with rfl | rfl <;> exact Text.isWritable_iff.2 (by decide),
      rfl, rfl, rfl, by simp⟩)⟩

/-- The smallest number that is too long is not read back. -/
theorem not_reads_back_writeBound :
    let c : Case := ⟨⟨⟨"a.B"⟩, "m", [.int], none⟩, [.ofInt Text.writeBound], "ok"⟩
    c.IsPlain ∧ ¬ ∃ line, c.encode = .ok line ∧ Case.decode line = .ok c := by
  intro c
  have hinput : ∀ v ∈ c.input, v.IsPlain := List.forall_mem_singleton.2 (.int _)
  refine ⟨⟨⟨by decide, by simp [c], by simp [c], by decide, by decide⟩, hinput, by decide⟩, ?_⟩
  rintro ⟨line, hencode, -⟩
  have hlong : ¬ c.input.IsWritable := fun hw => by
    have h : Text.isWritable Text.writeBound = true :=
      hw (.ofInt Text.writeBound) (List.mem_singleton.2 rfl)
    rw [Text.isWritable_writeBound] at h
    exact Bool.noConfusion h
  obtain ⟨e, he⟩ := Input.encode_eq_error hinput hlong
  simp [Case.encode, he] at hencode

end Assay.Case
