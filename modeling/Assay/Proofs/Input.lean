import Assay.Case
import Assay.Proofs.Value.Grammar

/-!
# Inputs are read back

`Spells cs ts`: the tokens of the text `cs` are `ts`, whatever follows it (a digit excepted, which
would go on with a number). `Written r cs x`: it spells tokens which the reader `r` takes for `x`. A
value whose characters are neither apostrophes nor `)` and whose numbers are short enough to be
written has a text that spells tokens which are read as the value; so have lists of such values
with commas between them.
-/

namespace Assay

namespace Token

/-- The text stands for these tokens wherever no digit follows it. -/
def Spells (cs : List Char) (ts : List Token) : Prop :=
  ∀ rest, Stops rest → scanFrom 0 (cs ++ rest) = ts ++ scanFrom 0 rest

namespace Spells

theorem nil : Spells [] [] := fun _ _ => rfl

theorem skip {c : Char} (h : ∀ rest, first? (c :: rest) = none) : Spells [c] [] := by
  intro rest _
  simp [scanFrom, h]

theorem of_form {kind : Kind} {cs : List Char} (h : kind.Form cs) :
    Spells cs [⟨kind, String.ofList cs⟩] :=
  fun _ hr => scanFrom_token h fun _ => hr

/-- Two texts one after the other; the second must not go on with a number at its front. -/
theorem append {cs ds : List Char} {ts us : List Token} (h : Spells cs ts) (h' : Spells ds us)
    (hs : ∀ rest, Stops rest → Stops (ds ++ rest)) : Spells (cs ++ ds) (ts ++ us) := by
  intro rest hr
  rw [List.append_assoc, List.append_assoc, h _ (hs rest hr), h' rest hr]

theorem closeParen : Spells [')'] [] := skip fun _ => rfl

theorem closeArray : Spells [']'] [⟨.closeArray, "]"⟩] := of_form .closeArray

/-- Unlike the other words, the opening of an array may be followed by a digit. -/
theorem openArray {k : Char} (hk : k = 'I' ∨ k = 'C') (rest : List Char) :
    scanFrom 0 (['[', k, ':'] ++ rest) =
      ⟨.openArray, String.ofList ['[', k, ':']⟩ :: scanFrom 0 rest :=
  scanFrom_token (.openArray hk) Kind.noConfusion

theorem bool (b : Bool) :
    Spells (if b then "true" else "false").toList [⟨.bool, if b then "true" else "false"⟩] := by
  cases b
  · exact of_form (.bool false)
  · exact of_form (.bool true)

theorem char {c : Char} (hc : c ≠ '\'') :
    Spells ['\'', c, '\''] [⟨.char, String.ofList ['\'', c, '\'']⟩] := of_form (.char hc)

theorem int (n : Int) : Spells (toString n).toList [⟨.int, toString n⟩] := by
  have hs : (toString n).toList = signed (decide (n < 0)) (Nat.toDigits 10 n.natAbs) := by
    simpa [signed] using Text.toList_toString_int n
  have h := of_form (.int (decide (n < 0)) (Nat.toDigits_ne_nil (n := n.natAbs) (b := 10))
    fun c hc => Text.isDecimal_of_isDigit (Text.isDigit_toDigits hc))
  rwa [← hs, String.ofList_toList] at h

end Spells

end Token

namespace Datum

theorem write_int {n : Int} (h : Text.isWritable n = true) : (int n).write = .ok (toString n) := by
  rw [write, if_pos (by rw [isWritable, h])]
  rfl

theorem write_int_long {n : Int} (h : Text.isWritable n = false) :
    (int n).write = .error Text.tooLong := by
  rw [write, if_neg (by rw [isWritable, h]; exact Bool.false_ne_true)]

theorem areWritable_map_int (ns : List Int) :
    areWritable (ns.map int) = true ↔ ∀ n ∈ ns, Text.isWritable n = true := by
  induction ns with
  | nil => simp [areWritable]
  | cons n ns ih => simp [areWritable, isWritable, ih]

theorem areWritable_map_str (ss : List String) : areWritable (ss.map str) = true := by
  induction ss with
  | nil => rfl
  | cons s ss ih => simp [areWritable, isWritable, ih]

end Datum

namespace Value

namespace Reader

variable {α : Type}

theorem reads_int {n : Int} (h : Text.isWritable n = true) : Reads int [⟨.int, toString n⟩] n := by
  intro input rest
  rw [List.singleton_append, run_int rfl, Text.readInt_toString h]

/-- The text spells tokens which the reader reads as `x`; the first of them closes no array. -/
def Written (r : Reader α) (cs : List Char) (x : α) : Prop :=
  ∃ ts, Token.Spells cs ts ∧ Takes r ts x

theorem Written.of_token {r : Reader α} {cs : List Char} {t : Token} {x : α}
    (hspell : Token.Spells cs [t]) (hkind : t.kind ≠ .closeArray) (hread : Reads r [t] x) :
    Written r cs x :=
  ⟨[t], hspell, hread, t, [], rfl, hkind⟩

/-- The text is a comma, perhaps with something around it that is skipped. -/
structure IsComma (sep : List Char) : Prop where
  scan : ∀ rest, Token.scanFrom 0 (sep ++ rest) = ⟨.comma, ","⟩ :: Token.scanFrom 0 rest
  stops : ∀ rest, Token.Stops (sep ++ rest)

theorem isComma_tight : IsComma [','] := ⟨fun _ => rfl, fun _ => Token.Stops.cons rfl _⟩

theorem isComma_spaced : IsComma [',', ' '] := ⟨fun _ => rfl, fun _ => Token.Stops.cons rfl _⟩

variable {sep : List Char}

theorem IsComma.stops_moreText (hsep : IsComma sep) (css : List (List Char)) {rest : List Char}
    (h : Token.Stops rest) : Token.Stops (Text.moreText sep css ++ rest) := by
  cases css with
  | nil => exact h
  | cons cs css =>
    rw [Text.moreText_cons, List.append_assoc]
    exact hsep.stops _

theorem Written.more (hsep : IsComma sep) {r : Reader α} {css : List (List Char)} {xs : List α}
    (h : List.Forall₂ (Written r) css xs) :
    ∃ ts, Token.Spells (Text.moreText sep css) ts ∧ More (Takes r) ts xs := by
  induction h with
  | nil => exact ⟨[], Token.Spells.nil, .nil⟩
  | @cons cs x css xs h _ ih =>
    obtain ⟨ts, hspell, htakes⟩ := h
    obtain ⟨us, hspells, hmore⟩ := ih
    refine ⟨⟨.comma, ","⟩ :: (ts ++ us), fun rest hr => ?_, .cons htakes hmore⟩
    -- a number may follow the comma, so the parts are not put together by `Spells.append`
    rw [Text.moreText_cons, List.append_assoc, List.append_assoc, hsep.scan,
      hspell _ (hsep.stops_moreText css hr), hspells rest hr]
    simp

theorem Written.items (hsep : IsComma sep) {r : Reader α} {css : List (List Char)} {xs : List α}
    (h : List.Forall₂ (Written r) css xs) :
    ∃ ts, Token.Spells (sep.intercalate css) ts ∧ Listed (Takes r) ts xs := by
  cases h with
  | nil => exact ⟨[], Token.Spells.nil, .nil⟩
  | @cons cs x css xs h hs =>
    obtain ⟨ts, hspell, htakes⟩ := h
    obtain ⟨us, hspells, hmore⟩ := Written.more hsep hs
    refine ⟨ts ++ us, ?_, .cons htakes hmore⟩
    rw [Text.intercalate_cons]
    exact hspell.append hspells fun _ hr => hsep.stops_moreText css hr

theorem written_int {n : Int} (h : Text.isWritable n = true) : Written int (toString n).toList n :=
  .of_token (Token.Spells.int n) Token.Kind.noConfusion (reads_int h)

theorem written_value_int {n : Int} (h : Text.isWritable n = true) :
    Written value (toString n).toList (ofInt n) :=
  .of_token (Token.Spells.int n) Token.Kind.noConfusion (reads_value_int (reads_int h))

theorem written_value_bool (b : Bool) :
    Written value (if b then "true" else "false").toList (ofBool b) :=
  .of_token (Token.Spells.bool b) Token.Kind.noConfusion (reads_value_bool b)

theorem written_value_char {c : Char} (h : c ≠ '\'') :
    Written value ['\'', c, '\''] ⟨.char, .str (String.singleton c)⟩ :=
  .of_token (Token.Spells.char h) Token.Kind.noConfusion (reads_value_char c)

theorem written_char {c : Char} (h : c ≠ '\'') :
    Written char ['\'', c, '\''] (String.singleton c) :=
  .of_token (Token.Spells.char h) Token.Kind.noConfusion (reads_char c)

theorem written_array (hsep : IsComma sep) {r : Reader α} {css : List (List Char)} {xs : List α}
    (h : List.Forall₂ (Written r) css xs) {k : Char} (hk : k = 'I' ∨ k = 'C') {f : List α → Value}
    (hf : arrayItems (String.ofList ['[', k, ':']) = f <$> items r (some .closeArray)) :
    Written value (['[', k, ':'] ++ (sep.intercalate css ++ [']'])) (f xs) := by
  obtain ⟨ts, hspell, hlisted⟩ := Written.items hsep h
  have hclose : Token.Spells (sep.intercalate css ++ [']']) (ts ++ [⟨.closeArray, "]"⟩]) :=
    hspell.append Token.Spells.closeArray fun _ _ => Token.Stops.cons rfl _
  refine ⟨_, fun rest hr => ?_, reads_array hlisted hf, _, _, rfl, Token.Kind.noConfusion⟩
  rw [List.append_assoc, Token.Spells.openArray hk, hclose rest hr]
  rfl

end Reader

/-- The character can stand between apostrophes inside the parentheses of an input. -/
def isPlainChar (c : Char) : Prop := c ≠ '\'' ∧ c ≠ ')'

/-- The values that inputs of cases hold: truth values, numbers, characters, and arrays of the last
two. -/
inductive IsPlain : Value → Prop
  | bool (b : Bool) : IsPlain (ofBool b)
  | int (n : Int) : IsPlain (ofInt n)
  | char (c : Char) (h : isPlainChar c) : IsPlain ⟨.char, .str (String.singleton c)⟩
  | ints (ns : List Int) : IsPlain (ofArray .int (ns.map .int))
  | chars (cs : List Char) (h : ∀ c ∈ cs, isPlainChar c) :
      IsPlain (ofArray .char ((cs.map String.singleton).map .str))

/-- A character between apostrophes. -/
def charText (c : Char) : String := "'" ++ String.singleton c ++ "'"

theorem toList_charText (c : Char) : (charText c).toList = ['\'', c, '\''] := by
  simp [charText]

theorem not_mem_charText {c : Char} (h : isPlainChar c) : ')' ∉ (charText c).toList := by
  simp [toList_charText, Ne.symm h.2]

/-- The text is written for the value, stays inside parentheses, and is read as the value. -/
structure Spelled (v : Value) (text : String) : Prop where
  encode : v.encode = .ok text
  inside : ')' ∉ text.toList
  written : Reader.Written Reader.value text.toList v

namespace Spelled

theorem bool (b : Bool) : Spelled (ofBool b) (if b then "true" else "false") where
  encode := rfl
  inside := by cases b <;> decide
  written := Reader.written_value_bool b

theorem int {n : Int} (h : Text.isWritable n = true) : Spelled (ofInt n) (toString n) where
  encode := Datum.write_int h
  inside := Text.not_mem_toString (by decide) (by decide) n
  written := Reader.written_value_int h

theorem char {c : Char} (h : isPlainChar c) :
    Spelled ⟨.char, .str (String.singleton c)⟩ (charText c) where
  encode := rfl
  inside := not_mem_charText h
  written := toList_charText c ▸ Reader.written_value_char h.1

/-- The text of an array, from the texts of its elements. -/
theorem array {α : Type} {r : Reader α} {texts : List String} {xs : List α} {k : Char}
    {element : Ty} {f : α → Datum}
    (hr : List.Forall₂ (fun t x => Reader.Written r t.toList x) texts xs)
    (hin : ∀ t ∈ texts, ')' ∉ t.toList) (hk : k = 'I' ∨ k = 'C')
    (hf : Reader.arrayItems (String.ofList ['[', k, ':']) =
      (fun xs => ofArray element (xs.map f)) <$> Reader.items r (some .closeArray))
    (he : (ofArray element (xs.map f)).encode =
      .ok (String.ofList ['[', k, ':'] ++ ", ".intercalate texts ++ "]")) :
    Spelled (ofArray element (xs.map f))
      (String.ofList ['[', k, ':'] ++ ", ".intercalate texts ++ "]") := by
  have htext : (String.ofList ['[', k, ':'] ++ ", ".intercalate texts ++ "]").toList =
      ['[', k, ':'] ++ ([',', ' '].intercalate (texts.map String.toList) ++ [']']) := by
    simp [String.toList_intercalate]
  refine ⟨he, ?_, ?_⟩
  · have hinner : ')' ∉ [',', ' '].intercalate (texts.map String.toList) :=
      Text.not_mem_intercalate (by decide) (List.forall_mem_map.2 hin)
    have hkc : ')' ≠ k := by rcases hk with rfl | rfl <;> decide
    rw [htext]
    simp [hinner, hkc]
  · rw [htext]
    exact Reader.written_array Reader.isComma_spaced (List.forall₂_map_left_iff.2 hr) hk hf

theorem ints {ns : List Int} (h : ∀ n ∈ ns, Text.isWritable n = true) :
    Spelled (ofArray .int (ns.map .int)) ("[I:" ++ ", ".intercalate (ns.map toString) ++ "]") := by
  have hm : (ns.map Datum.int).mapM Datum.write = .ok (ns.map toString) :=
    mapM_eq_ok.2 (List.forall₂_map_left_iff.2 (List.forall₂_map_right_iff.2
      (List.forall₂_same.2 fun n hn => Datum.write_int (h n hn))))
  refine array (k := 'I') (r := Reader.int) ?_ ?_ (.inl rfl) rfl ?_
  · exact List.forall₂_map_left_iff.2 (List.forall₂_same.2 fun n hn => Reader.written_int (h n hn))
  · exact List.forall_mem_map.2 fun n _ => Text.not_mem_toString (by decide) (by decide) n
  · simp [Value.encode, ofArray, Datum.elements?, hm]

theorem chars {cs : List Char} (h : ∀ c ∈ cs, isPlainChar c) :
    Spelled (ofArray .char ((cs.map String.singleton).map .str))
      ("[C:" ++ ", ".intercalate (cs.map charText) ++ "]") := by
  have hm : ((cs.map String.singleton).map Datum.str).mapM Datum.write =
      .ok (cs.map String.singleton) :=
    mapM_eq_ok.2 (List.forall₂_map_left_iff.2 (List.forall₂_same.2 fun _ _ => rfl))
  have htexts : (cs.map String.singleton).map (fun t => "'" ++ t ++ "'") = cs.map charText := by
    simp [charText]
  refine array (k := 'C') (r := Reader.char) ?_ ?_ (.inr rfl) rfl ?_
  · refine List.forall₂_map_left_iff.2
      (List.forall₂_map_right_iff.2 (List.forall₂_same.2 fun c hc => ?_))
    rw [toList_charText]
    exact Reader.written_char (h c hc).1
  · exact List.forall_mem_map.2 fun c hc => not_mem_charText (h c hc)
  · simp only [Value.encode, ofArray, Datum.elements?, hm, ok_bind, htexts]
    rfl

end Spelled

/-- A plain value without a number that is too long has a text that is read back. -/
theorem IsPlain.spelled {v : Value} (h : v.IsPlain) (hw : v.content.isWritable = true) :
    ∃ text, Spelled v text := by
  cases h with
  | bool b => exact ⟨_, Spelled.bool b⟩
  | int n => exact ⟨_, Spelled.int hw⟩
  | char c h => exact ⟨_, Spelled.char h⟩
  | ints ns => exact ⟨_, Spelled.ints ((Datum.areWritable_map_int ns).1 hw)⟩
  | chars cs h => exact ⟨_, Spelled.chars h⟩

/-- A plain value with a number that is too long has no text. -/
theorem IsPlain.not_writable {v : Value} (h : v.IsPlain) (hw : v.content.isWritable = false) :
    ∃ e, v.encode = .error e := by
  cases h with
  | bool b => exact absurd hw (by simp [ofBool, Datum.isWritable])
  | int n => exact ⟨_, Datum.write_int_long hw⟩
  | char c h => exact absurd hw (by simp [Datum.isWritable])
  | ints ns =>
    have hlong : ¬ ∀ n ∈ ns, Text.isWritable n = true := by
      rw [← Datum.areWritable_map_int]
      exact Bool.not_eq_true _ ▸ hw
    obtain ⟨n, hn, hlong⟩ := by simpa using hlong
    obtain ⟨e, he⟩ := mapM_eq_error (f := Datum.write) (List.mem_map_of_mem (f := Datum.int) hn)
      ⟨_, Datum.write_int_long hlong⟩
    exact ⟨e, by simp [Value.encode, ofArray, Datum.elements?, he]⟩
  | chars cs h =>
    rw [ofArray, Datum.isWritable, Datum.areWritable_map_str] at hw
    exact Bool.noConfusion hw

end Value

namespace Input

/-- No value of the input holds a number that is too long to be written. -/
def IsWritable (i : Input) : Prop := ∀ v ∈ i, v.content.isWritable = true

theorem exists_spelled {i : Input} (h : ∀ v ∈ i, v.IsPlain) (hw : i.IsWritable) :
    ∃ texts, List.Forall₂ Value.Spelled i texts ∧ ∀ t ∈ texts, ')' ∉ t.toList := by
  induction i with
  | nil => exact ⟨[], .nil, by simp⟩
  | cons v i ih =>
    obtain ⟨text, hv⟩ := (h v (by simp)).spelled (hw v (by simp))
    obtain ⟨texts, hi, hin⟩ := ih (fun u hu => h u (by simp [hu])) fun u hu => hw u (by simp [hu])
    exact ⟨text :: texts, .cons hv hi, List.forall_mem_cons.2 ⟨hv.inside, hin⟩⟩

/-- The values of a text in parentheses are those between them. -/
theorem decode_parenthesised {sep : List Char} (hsep : Value.Reader.IsComma sep) {i : Input}
    {css : List (List Char)} (h : List.Forall₂ (Value.Reader.Written Value.Reader.value) css i)
    {text : String} (ht : text.toList = '(' :: (sep.intercalate css ++ [')'])) :
    Input.decode text = .ok i := by
  obtain ⟨ts, hspell, hlisted⟩ := Value.Reader.Written.items hsep h
  have hclose : Token.Spells (sep.intercalate css ++ [')']) ts := by
    simpa using hspell.append Token.Spells.closeParen fun _ _ => Token.Stops.cons rfl _
  have hscan : Token.scan text = ts := by
    have hopen : Token.scan text = Token.scanFrom 0 (sep.intercalate css ++ [')']) := by
      rw [Token.scan, ht]
      rfl
    rw [hopen]
    simpa [Token.scanFrom] using hclose [] (by simp [Token.Stops])
  have hvalues := Value.Reader.run_items hlisted text .none
  rw [List.append_nil] at hvalues
  have hdecode : Value.decode text = .ok i := by
    rw [Value.decode, hscan, Value.Reader.run_bind (r := Value.Reader.values) hvalues]
    rfl
  have hfirst : text.toList.head? = some '(' := by rw [ht, List.head?_cons]
  have hlast : text.toList.getLast? = some ')' := by
    rw [ht, ← List.cons_append, List.getLast?_append]
    rfl
  rw [Input.decode, hfirst, hlast]
  exact hdecode

/-- An input of plain values that can be written is written in parentheses and read back. -/
theorem encode_decode {i : Input} (h : ∀ v ∈ i, v.IsPlain) (hw : i.IsWritable) :
    ∃ text args, i.encode = .ok text ∧ text.toList = '(' :: (args ++ [')']) ∧ ')' ∉ args ∧
      Input.decode text = .ok i := by
  obtain ⟨texts, hs, hin⟩ := exists_spelled h hw
  have htext : ("(" ++ ", ".intercalate texts ++ ")").toList =
      '(' :: ([',', ' '].intercalate (texts.map String.toList) ++ [')']) := by
    simp [String.toList_intercalate]
  have hwritten :
      List.Forall₂ (Value.Reader.Written Value.Reader.value) (texts.map String.toList) i :=
    List.forall₂_map_left_iff.2 (hs.flip.imp fun _ _ hv => hv.written)
  refine ⟨"(" ++ ", ".intercalate texts ++ ")", _, ?_, htext, Text.not_mem_intercalate (by decide)
    (List.forall_mem_map.2 hin), decode_parenthesised Value.Reader.isComma_spaced hwritten htext⟩
  rw [Input.encode, mapM_eq_ok.2 (hs.imp fun _ _ hv => hv.encode)]
  rfl

/-- A plain value with a number that is too long leaves the input without a text. -/
theorem encode_eq_error {i : Input} (h : ∀ v ∈ i, v.IsPlain) (hw : ¬ i.IsWritable) :
    ∃ e, i.encode = .error e := by
  obtain ⟨v, hv, hlong⟩ : ∃ v ∈ i, v.content.isWritable = false := by
    simpa [IsWritable] using hw
  obtain ⟨e, he⟩ := mapM_eq_error hv ((h v hv).not_writable hlong)
  exact ⟨e, by rw [Input.encode, he]; rfl⟩

end Input

end Assay
