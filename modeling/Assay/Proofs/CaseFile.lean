import Assay.Proofs.Case
import Assay.Proofs.Descriptor.Written
import Assay.Proofs.Malformed

/-!
# Cases of a file

A file is read with all its breaks turned into line feeds, so a case that is read from a line of it
holds neither a carriage return nor a line feed. If such a case can be written at all and its line
is read as a case that equals it, then its line is read as the case itself, also from another file,
and no other case of this kind equals it.
-/

namespace Assay

namespace Text

theorem not_mem_unifyBreaks (cs : List Char) : '\r' ∉ unifyBreaks cs := by
  fun_induction unifyBreaks cs with
  | case1 => simp
  | case2 cs ih => simp [ih]
  | case3 c cs _ ih =>
    rw [List.mem_cons, not_or]
    refine ⟨?_, ih⟩
    split
    · decide
    · rename_i hc
      exact Ne.symm hc

theorem unifyBreaks_eq_self {cs : List Char} (h : '\r' ∉ cs) : unifyBreaks cs = cs := by
  fun_induction unifyBreaks cs with
  | case1 => rfl
  | case2 cs ih => simp at h
  | case3 c cs _ ih =>
    obtain ⟨hc, hcs⟩ := not_or.1 (List.mem_cons.not.1 h)
    rw [if_neg (Ne.symm hc), ih hcs]

theorem fromFile_eq_self {s : String} (h : '\r' ∉ s.toList) : fromFile s = s := by
  rw [fromFile, unifyBreaks_eq_self h, String.ofList_toList]

theorem mem_feedLinesFrom {cs acc line : List Char} (h : line ∈ feedLinesFrom cs acc)
    (hacc : '\n' ∉ acc) :
    (∀ c ∈ line, c ∈ acc ∨ c ∈ cs) ∧ '\n' ∉ line.dropLast := by
  fun_induction feedLinesFrom cs acc with
  | case1 => cases h
  | case2 acc _ =>
    obtain rfl := List.mem_singleton.1 h
    refine ⟨fun c hc => .inl (List.mem_reverse.1 hc), fun hmem => hacc (List.mem_reverse.1 ?_)⟩
    exact (List.dropLast_sublist _).subset hmem
  | case3 cs acc ih =>
    rcases List.mem_cons.1 h with rfl | h
    · refine ⟨fun c hc => ?_, ?_⟩
      · rcases List.mem_cons.1 (List.mem_reverse.1 hc) with rfl | hc
        · exact .inr List.mem_cons_self
        · exact .inl hc
      · rw [List.reverse_cons, List.dropLast_concat, List.mem_reverse]
        exact hacc
    · obtain ⟨hmem, hlast⟩ := ih h List.not_mem_nil
      exact ⟨fun c hc => .inr (List.mem_cons_of_mem _ ((hmem c hc).resolve_left List.not_mem_nil)),
        hlast⟩
  | case4 c cs acc hc ih =>
    obtain ⟨hmem, hlast⟩ := ih h (List.mem_cons.not.2 (not_or.2 ⟨Ne.symm hc, hacc⟩))
    refine ⟨fun x hx => ?_, hlast⟩
    rcases hmem x hx with hx | hx
    · exact (List.mem_cons.1 hx).elim (fun h => .inr (h ▸ List.mem_cons_self)) .inl
    · exact .inr (List.mem_cons_of_mem c hx)

/-- A line of a file: no carriage return, and a line feed at its end at most. -/
theorem mem_feedLines_fromFile {text line : String} (h : line ∈ feedLines (fromFile text)) :
    '\r' ∉ line.toList ∧ '\n' ∉ line.toList.dropLast := by
  obtain ⟨cs, hcs, rfl⟩ := List.mem_map.1 h
  obtain ⟨hmem, hlast⟩ := mem_feedLinesFrom hcs List.not_mem_nil
  rw [String.toList_ofList]
  refine ⟨fun hr => ?_, hlast⟩
  have hr := (hmem '\r' hr).resolve_left List.not_mem_nil
  rw [fromFile, String.toList_ofList] at hr
  exact not_mem_unifyBreaks _ hr

/-- The first mark of a text stands no later than any other. -/
theorem length_le_of_append_eq {x : Char} {p q r s : List Char} (h : p ++ x :: r = q ++ x :: s)
    (hp : x ∉ p) :
    p.length ≤ q.length := by
  by_contra hlt
  rw [Nat.not_le] at hlt
  have hget : (p ++ x :: r)[q.length]? = some x := by simp [h]
  rw [List.getElem?_append_left hlt] at hget
  exact hp (List.mem_of_getElem? hget)

theorem not_mem_firstLine (cs : List Char) : '\n' ∉ firstLine cs := fun h => by
  simpa using List.mem_takeWhile_imp h

end Text

theorem Token.Scans.text_isInfix {cs : List Char} {ts : List Token} {gap : List Char}
    (h : Scans cs ts gap) :
    ∀ t ∈ ts, t.text.toList <:+: cs := by
  induction h with
  | nil => simp
  | skip _ _ ih => exact fun t ht => (ih t ht).trans (List.suffix_cons _ _).isInfix
  | token _ _ _ ih =>
    refine List.forall_mem_cons.2 ⟨?_, fun t ht => (ih t ht).trans (List.suffix_append _ _).isInfix⟩
    rw [String.toList_ofList]
    exact (List.prefix_append _ _).isInfix

namespace Datum

theorem sames_map {α : Type} {f : α → Datum} (hf : ∀ a b, same (f a) (f b) = true → a = b)
    {xs ys : List α} (h : sames (xs.map f) (ys.map f) = true) : xs = ys := by
  induction xs generalizing ys with
  | nil =>
    cases ys with
    | nil => rfl
    | cons y ys => cases h
  | cons x xs ih =>
    cases ys with
    | nil => cases h
    | cons y ys =>
      rw [List.map_cons, List.map_cons, sames, Bool.and_eq_true] at h
      rw [hf x y h.1, ih h.2]

end Datum

namespace Value

variable {α : Type} {Item : List Token → α → Prop} {ts : List Token} {xs : List α} {x : α}
  {p : Char → Prop} {v w : Value}

theorem More.exists_of_mem (h : More Item ts xs) (hx : x ∈ xs) :
    ∃ us, (∀ t ∈ us, t ∈ ts) ∧ Item us x := by
  induction h with
  | nil => cases hx
  | @cons us ts y ys hy _ ih =>
    rcases List.mem_cons.1 hx with rfl | hx
    · exact ⟨us, fun t ht => by simp [ht], hy⟩
    · obtain ⟨vs, hvs, hitem⟩ := ih hx
      exact ⟨vs, fun t ht => by simp [hvs t ht], hitem⟩

theorem Listed.exists_of_mem (h : Listed Item ts xs) (hx : x ∈ xs) :
    ∃ us, (∀ t ∈ us, t ∈ ts) ∧ Item us x := by
  cases h with
  | nil => cases hx
  | @cons us ts y ys hy hys =>
    rcases List.mem_cons.1 hx with rfl | hx
    · exact ⟨us, fun t ht => by simp [ht], hy⟩
    · obtain ⟨vs, hvs, hitem⟩ := hys.exists_of_mem hx
      exact ⟨vs, fun t ht => by simp [hvs t ht], hitem⟩

/-- Values of inputs with characters of one kind. -/
inductive IsMade (p : Char → Prop) : Value → Prop
  | bool (b : Bool) : IsMade p (ofBool b)
  | int (n : Int) : IsMade p (ofInt n)
  | char {c : Char} (h : p c) : IsMade p ⟨.char, .str (String.singleton c)⟩
  | ints (ns : List Int) : IsMade p (ofArray .int (ns.map .int))
  | chars {cs : List Char} (h : ∀ c ∈ cs, p c) :
      IsMade p (ofArray .char ((cs.map String.singleton).map .str))

theorem IsChar.exists_char {s : String} (h : IsChar ts s)
    (hp : ∀ c, c ≠ '\'' → ⟨.char, String.ofList ['\'', c, '\'']⟩ ∈ ts → p c) :
    ∃ c, p c ∧ s = String.singleton c := by
  cases h with
  | @quoted c h => exact ⟨c, hp c h (List.mem_singleton_self _), rfl⟩

theorem IsValue.isMade (h : IsValue ts v)
    (hp : ∀ c, c ≠ '\'' → ⟨.char, String.ofList ['\'', c, '\'']⟩ ∈ ts → p c) :
    v.IsMade p := by
  cases h with
  | int h => exact .int _
  | char h =>
    obtain ⟨c, hc, rfl⟩ := h.exists_char hp
    exact .char hc
  | bool b => exact .bool b
  | ints h => exact .ints _
  | @chars ts ss h =>
    suffices h : ∃ cs : List Char, (∀ c ∈ cs, p c) ∧ ss = cs.map String.singleton by
      obtain ⟨cs, hcs, rfl⟩ := h
      exact .chars hcs
    have heach : ∀ s ∈ ss, ∃ c, p c ∧ s = String.singleton c := by
      intro s hs
      obtain ⟨us, hus, hchar⟩ := h.exists_of_mem hs
      exact hchar.exists_char fun c hc hmem =>
        hp c hc (List.mem_cons_of_mem _ (List.mem_append_left _ (hus _ hmem)))
    clear h hp
    induction ss with
    | nil => exact ⟨[], nofun, rfl⟩
    | cons s ss ih =>
      obtain ⟨⟨c, hc, rfl⟩, hss⟩ := List.forall_mem_cons.1 heach
      obtain ⟨cs, hcs, rfl⟩ := ih hss
      exact ⟨c :: cs, List.forall_mem_cons.2 ⟨hc, hcs⟩, rfl⟩

theorem IsMade.isPlain (h : v.IsMade p) (hp : ∀ c, p c → isPlainChar c) : v.IsPlain := by
  cases h with
  | bool b => exact .bool b
  | int n => exact .int n
  | char h => exact .char _ (hp _ h)
  | ints ns => exact .ints ns
  | chars h => exact .chars _ fun c hc => hp c (h c hc)

/-- No carriage return is written that is not in the value. -/
theorem IsMade.not_mem_encode (h : v.IsMade p) (hp : ∀ c, p c → isPlainChar c ∧ c ≠ '\r')
    {text : String} (hencode : v.encode = .ok text) : '\r' ∉ text.toList := by
  have hplain := h.isPlain fun c hc => (hp c hc).1
  have hwritable : v.content.isWritable = true := by
    by_contra hlong
    obtain ⟨e, he⟩ := hplain.not_writable (Bool.not_eq_true _ ▸ hlong)
    rw [he] at hencode
    cases hencode
  -- the text of a list has a comma and a blank between the texts of its elements
  have hlist : ∀ {opening : String} {texts : List String}, '\r' ∉ opening.toList →
      (∀ t ∈ texts, '\r' ∉ t.toList) →
      '\r' ∉ (opening ++ ", ".intercalate texts ++ "]").toList := by
    intro opening texts hopening htexts
    have hinner : '\r' ∉ [',', ' '].intercalate (texts.map String.toList) :=
      Text.not_mem_intercalate (by decide) (List.forall_mem_map.2 htexts)
    simp [String.toList_intercalate, hopening, hinner]
  have hchar : ∀ c, p c → '\r' ∉ (charText c).toList := by
    intro c hc
    simp [toList_charText, Ne.symm (hp c hc).2]
  cases h with
  | bool b =>
    rw [← Except.ok.inj ((Spelled.bool b).encode.symm.trans hencode)]
    cases b <;> decide
  | int n =>
    rw [← Except.ok.inj ((Spelled.int hwritable).encode.symm.trans hencode)]
    exact Text.not_mem_toString (by decide) (by decide) n
  | @char c h =>
    rw [← Except.ok.inj ((Spelled.char (hp c h).1).encode.symm.trans hencode)]
    exact hchar c h
  | ints ns =>
    rw [← Except.ok.inj
      ((Spelled.ints ((Datum.areWritable_map_int ns).1 hwritable)).encode.symm.trans hencode)]
    exact hlist (by decide)
      (List.forall_mem_map.2 fun n _ => Text.not_mem_toString (by decide) (by decide) n)
  | @chars cs h =>
    rw [← Except.ok.inj ((Spelled.chars fun c hc => (hp c (h c hc)).1).encode.symm.trans hencode)]
    exact hlist (by decide) (List.forall_mem_map.2 fun c hc => hchar c (h c hc))

/-- Plain values are equal only if they are the same. -/
theorem IsPlain.eq_of_beq (hv : v.IsPlain) (hw : w.IsPlain) (h : (v == w) = true) : v = w := by
  obtain ⟨htype, hcontent⟩ : v.type = w.type ∧ Datum.same v.content w.content = true := by
    have h : Datum.same v.toDatum w.toDatum = true := h
    rwa [toDatum, toDatum, Datum.same, Bool.and_eq_true, beq_iff_eq] at h
  cases hv with
  | bool b =>
    cases hw with
    | bool b' => rw [beq_iff_eq.1 (hcontent : (b == b') = true)]
    | _ => cases htype
  | int n =>
    cases hw with
    | int n' => rw [beq_iff_eq.1 (hcontent : (n == n') = true)]
    | _ => cases htype
  | char c h =>
    cases hw with
    | char c' h' =>
      rw [beq_iff_eq.1 (hcontent : (String.singleton c == String.singleton c') = true)]
    | _ => cases htype
  | ints ns =>
    cases hw with
    | ints ns' => rw [Datum.sames_map (fun a b h => beq_iff_eq.1 (h : (a == b) = true)) hcontent]
    | _ => cases htype
  | chars cs h =>
    cases hw with
    | chars cs' h' =>
      rw [Datum.sames_map (fun a b h => beq_iff_eq.1 (h : (a == b) = true)) hcontent]
    | _ => cases htype

theorem eq_of_beq_of_isPlain {vs ws : List Value} (hvs : ∀ v ∈ vs, v.IsPlain)
    (hws : ∀ w ∈ ws, w.IsPlain) (h : (vs == ws) = true) : vs = ws := by
  induction vs generalizing ws with
  | nil =>
    cases ws with
    | nil => rfl
    | cons w ws => cases h
  | cons v vs ih =>
    cases ws with
    | nil => cases h
    | cons w ws =>
      rw [List.cons_beq_cons, Bool.and_eq_true] at h
      obtain ⟨hv, hvs⟩ := List.forall_mem_cons.1 hvs
      obtain ⟨hw, hws⟩ := List.forall_mem_cons.1 hws
      rw [hv.eq_of_beq hw h.1, ih hvs hws h.2]

end Value

/-- A character between apostrophes is not the parenthesis that closes the input. -/
theorem Input.ne_close_of_quoted {args : List Char} (hclose : ')' ∉ args) {c : Char}
    (h : ['\'', c, '\''] <:+: '(' :: args ++ [')']) : c ≠ ')' := by
  rintro rfl
  obtain ⟨front, back, h⟩ := h
  have hlast : ('(' :: args ++ [')']).dropLast =
      front ++ ['\'', ')'] ++ ('\'' :: back).dropLast := by
    rw [← h, ← List.dropLast_append_of_ne_nil (List.cons_ne_nil _ _)]
    simp
  rw [List.dropLast_concat] at hlast
  have hmem : ')' ∈ '(' :: args := by simp [hlast]
  exact hclose ((List.mem_cons.1 hmem).resolve_left (by decide))

theorem Input.isMade_of_decode {args : List Char} {i : Input} {text : String} (hclose : ')' ∉ args)
    (hreturn : '\r' ∉ args) (h : Input.decode (String.ofList ('(' :: args ++ [')'])) = .ok i)
    (hencode : i.encode = .ok text) :
    ∀ v ∈ i, v.IsMade fun c => Value.isPlainChar c ∧ c ≠ '\r' := by
  intro v hv
  obtain ⟨-, ts, gap, hscans, hlisted, -⟩ := Input.decode_eq_ok_iff.1 h
  rw [String.toList_ofList] at hscans
  obtain ⟨us, hus, hvalue | hobject⟩ := hlisted.exists_of_mem hv
  · refine hvalue.isMade fun c hc hmem => ?_
    have hpiece := hscans.text_isInfix _ (hus _ hmem)
    rw [String.toList_ofList] at hpiece
    refine ⟨⟨hc, ne_close_of_quoted hclose hpiece⟩, ?_⟩
    rintro rfl
    have hmem := hpiece.subset (a := '\r') (by simp)
    simp [hreturn] at hmem
  · -- an object is read, but there is no text for it
    obtain ⟨texts, htexts, -⟩ := bind_eq_ok.1 hencode
    obtain ⟨e, he⟩ := mapM_eq_error (f := Value.encode) hv (by cases hobject; exact ⟨_, rfl⟩)
    rw [he] at htexts
    cases htexts

theorem Input.not_mem_encode {i : Input} {text : String}
    (h : ∀ v ∈ i, v.IsMade fun c => Value.isPlainChar c ∧ c ≠ '\r')
    (hencode : i.encode = .ok text) : '\r' ∉ text.toList := by
  obtain ⟨texts, htexts, hencode⟩ := bind_eq_ok.1 hencode
  rw [← Except.ok.inj hencode]
  have heach : ∀ t ∈ texts, '\r' ∉ t.toList := by
    intro t ht
    obtain ⟨v, hv, hencode⟩ := (mem_of_mapM htexts).1 ht
    exact (h v hv).not_mem_encode (fun c hc => hc) hencode
  have hinner : '\r' ∉ [',', ' '].intercalate (texts.map String.toList) :=
    Text.not_mem_intercalate (by decide) (List.forall_mem_map.2 heach)
  simp [String.toList_intercalate, hinner]

namespace MethodId

variable {s : String} {m : MethodId}

/-- What stands behind a line feed is not read. -/
theorem decode_firstLine (h : decode s = .ok m) :
    decode (String.ofList (Text.firstLine s.toList)) = .ok m := by
  obtain ⟨⟨owner, rest⟩, howner, h⟩ := bind_eq_ok.1 h
  refine bind_eq_ok.2 ⟨(owner, rest), ?_, h⟩
  rw [String.toList_ofList, ownerParts, Text.firstLine_eq_self (Text.not_mem_firstLine _)]
  rw [ownerParts] at howner
  split at howner
  next => exact howner
  next => cases howner

/-- A text that is not longer than the identifier's own has no class among its types. -/
theorem isPlain_types_of_le (h : decode s = .ok m)
    (hle : s.toList.length ≤ m.encode.toList.length) :
    ∀ t ∈ m.types, t.isPlain = true := by
  intro t ht
  by_contra hclass
  have hline : '\n' ∉ (String.ofList (Text.firstLine s.toList)).toList := by
    rw [String.toList_ofList]
    exact Text.not_mem_firstLine _
  have hlt := (encode_of_decode hline (decode_firstLine h)).2 t ht (Bool.not_eq_true _ ▸ hclass)
  have hfirst := (List.takeWhile_sublist (fun c => decide (c ≠ '\n')) (l := s.toList)).length_le
  rw [String.toList_ofList, Text.firstLine] at hlt
  omega

end MethodId

namespace Case

variable {c d : Case} {line : String}

theorem parts?_eq_some {cs id input result : List Char} (h : parts? cs = some (id, input, result)) :
    ∃ gap args tail,
      cs = id ++ ' ' :: (gap ++ '(' :: (args ++ ')' :: ' ' :: '-' :: '>' :: ' ' :: tail)) ∧
      ' ' ∉ id ∧ ')' ∉ args ∧
      input = '(' :: args ++ [')'] ∧ result = Text.firstLine tail := by
  have hsplit : cs.takeWhile (· ≠ ' ') ++ cs.dropWhile (· ≠ ' ') = cs :=
    List.takeWhile_append_dropWhile
  have hfront : ' ' ∉ cs.takeWhile (· ≠ ' ') :=
    fun hmem => by simpa using List.mem_takeWhile_imp hmem
  have hblank := List.head?_dropWhile_not (fun c => decide (c ≠ ' ')) cs
  rw [parts?] at h
  generalize cs.takeWhile (· ≠ ' ') = front, cs.dropWhile (· ≠ ' ') = back at hsplit hfront hblank h
  subst hsplit
  rw [List.drop_left] at h
  cases back with
  | nil => simp [guard] at h
  | cons x back =>
    obtain rfl : x = ' ' := by simpa using hblank
    rw [List.dropWhile_cons_of_pos (by decide)] at h
    have hgap : back.takeWhile (· = ' ') ++ back.dropWhile (· = ' ') = back :=
      List.takeWhile_append_dropWhile
    generalize back.takeWhile (· = ' ') = gap, back.dropWhile (· = ' ') = inner at hgap h
    subst hgap
    obtain ⟨-, -, hopen⟩ := Option.bind_eq_some_iff.1 h
    split at hopen
    next =>
      obtain ⟨⟨args, rest⟩, hcut, hclose⟩ := Option.bind_eq_some_iff.1 hopen
      obtain ⟨tail, hafter, hall⟩ := Option.bind_eq_some_iff.1 hclose
      obtain ⟨rfl, hargs⟩ := Text.eq_of_cutAtFirst? hcut
      obtain rfl := Text.after?_eq_some_iff.1 hafter
      obtain ⟨rfl, hparts⟩ := Prod.mk.inj (Option.some.inj hall)
      obtain ⟨rfl, rfl⟩ := Prod.mk.inj hparts
      exact ⟨gap, args, tail, rfl, hfront, hargs, rfl, rfl⟩
    next => cases hopen

theorem decode_eq_ok (h : decode line = .ok c) : ∃ id gap args tail,
    line.toList = id ++ ' ' :: (gap ++ '(' :: (args ++ ')' :: ' ' :: '-' :: '>' :: ' ' :: tail)) ∧
    ' ' ∉ id ∧ ')' ∉ args ∧ MethodId.decode (String.ofList id) = .ok c.method ∧
    Input.decode (String.ofList ('(' :: args ++ [')'])) = .ok c.input ∧
    c.result = String.ofList (Text.firstLine tail) := by
  rw [decode] at h
  split at h
  next => cases h
  next id input result hparts =>
    obtain ⟨gap, args, tail, hline, hid, hargs, rfl, rfl⟩ := parts?_eq_some hparts
    obtain ⟨method, hmethod, h⟩ := bind_eq_ok.1 h
    obtain ⟨i, hinput, h⟩ := bind_eq_ok.1 h
    rw [← Except.ok.inj h]
    exact ⟨id, gap, args, tail, hline, hid, hargs, hmethod, hinput, rfl⟩

/-- The line of the case is read as a case that equals it. -/
def ReadsBack (c : Case) : Prop :=
  ∃ line c', c.encode = .ok line ∧ decode line = .ok c' ∧ (c' == c) = true

/-- A case whose line is read as the case itself, also from a file. -/
structure IsFiled (c : Case) : Prop where
  line : ∃ line, c.encode = .ok line ∧ decode (Text.fromFile line) = .ok c
  beq_self : (c == c) = true
  input : ∀ v ∈ c.input, v.IsPlain

theorem toList_line (h : c.encode = .ok line) : ∃ text, c.input.encode = .ok text ∧
    line.toList = c.method.encode.toList ++
      ' ' :: (text.toList ++ (' ' :: '-' :: '>' :: ' ' :: c.result.toList)) := by
  obtain ⟨text, htext, hline⟩ := bind_eq_ok.1 h
  refine ⟨text, htext, ?_⟩
  rw [← Except.ok.inj hline]
  simp [toString]

/-- If the line is read as an equal case, no class is among the types of the method. -/
theorem ReadsBack.isPlain_types (h : c.ReadsBack) : ∀ t ∈ c.method.types, t.isPlain = true := by
  obtain ⟨line, c', hencode, hdecode, hbeq⟩ := h
  obtain ⟨id, gap, args, tail, hline, hid, -, hmethod, -⟩ := decode_eq_ok hdecode
  obtain ⟨text, -, hline'⟩ := toList_line hencode
  have hbeq : (c'.method == c.method && c'.input == c.input && c'.result == c.result) = true := hbeq
  rw [Bool.and_eq_true, Bool.and_eq_true, beq_iff_eq] at hbeq
  rw [hbeq.1.1] at hmethod
  refine MethodId.isPlain_types_of_le hmethod ?_
  -- the identifier that is read ends at the first blank, and there is one behind the method
  rw [String.toList_ofList]
  exact Text.length_le_of_append_eq (hline.symm.trans hline') hid

/-- A case of a file that is read back up to equality is read back as itself. -/
theorem isFiled {text : String} {cases : List Case} (hfile : decodeAll text = .ok cases)
    (hc : c ∈ cases) (hback : c.ReadsBack) : c.IsFiled := by
  obtain ⟨origin, hmem, hread⟩ := (mem_of_mapM hfile).1 hc
  obtain ⟨hreturn, hfeed⟩ := Text.mem_feedLines_fromFile hmem
  obtain ⟨id, gap, args, tail, horigin, hid, hargs, hmethod, hinput, hresult⟩ := decode_eq_ok hread
  have hplain := hback.isPlain_types
  obtain ⟨line, c', hencode, hdecode, hbeq⟩ := hback
  obtain ⟨input, hinputText, hline⟩ := toList_line hencode
  rw [horigin] at hreturn hfeed
  -- a line feed can only be the last character of a line, and the identifier is not at its end
  have hid' : '\n' ∉ id := by
    rw [List.dropLast_append_of_ne_nil (List.cons_ne_nil _ _)] at hfeed
    exact fun h => hfeed (List.mem_append_left _ h)
  have hname : c.method.encode = String.ofList id := by
    refine (MethodId.encode_of_decode ?_ hmethod).1 hplain
    rwa [String.toList_ofList]
  have hmade := Input.isMade_of_decode hargs (fun h => hreturn (by simp [h])) hinput hinputText
  have hvalues : ∀ v ∈ c.input, v.IsPlain := fun v hv => (hmade v hv).isPlain fun _ h => h.1
  have hwritable : c.input.IsWritable := by
    by_contra hlong
    obtain ⟨e, he⟩ := Input.encode_eq_error hvalues hlong
    rw [he] at hinputText
    cases hinputText
  -- every part of the case is read back exactly, so an equal case that is read is the case
  obtain ⟨line', hencode', hdecode'⟩ :=
    decode_encode_of_parts (by rwa [hname, String.toList_ofList])
    (by rwa [hname]) hvalues hwritable
      (by rw [hresult, String.toList_ofList]; exact Text.not_mem_firstLine tail)
  obtain rfl : line = line' := Except.ok.inj (hencode.symm.trans hencode')
  obtain rfl : c' = c := Except.ok.inj (hdecode.symm.trans hdecode')
  refine ⟨⟨line, hencode, ?_⟩, hbeq, hvalues⟩
  have hclean : '\r' ∉ line.toList := by
    have htext := Input.not_mem_encode hmade hinputText
    have hend : '\r' ∉ Text.firstLine tail := fun h => hreturn (by simp [List.takeWhile_subset _ h])
    have hstart : '\r' ∉ id := fun h => hreturn (List.mem_append_left _ h)
    simp [hline, hname, hresult, htext, hend, hstart]
  rwa [Text.fromFile_eq_self hclean]

theorem IsFiled.eq_of_beq (hc : c.IsFiled) (hd : d.IsFiled) (h : (c == d) = true) : c = d := by
  have h : (c.method == d.method && c.input == d.input && c.result == d.result) = true := h
  rw [Bool.and_eq_true, Bool.and_eq_true] at h
  obtain ⟨⟨hmethod, hinput⟩, hresult⟩ := h
  calc c
    _ = ⟨c.method, c.input, c.result⟩ := rfl
    _ = ⟨d.method, d.input, d.result⟩ := by
      rw [beq_iff_eq.1 hmethod, Value.eq_of_beq_of_isPlain hc.input hd.input hinput,
        beq_iff_eq.1 hresult]

theorem IsFiled.beq_iff (hc : c.IsFiled) (hd : d.IsFiled) : (c == d) = true ↔ c = d :=
  ⟨hc.eq_of_beq hd, fun h => h ▸ hc.beq_self⟩

end Case

end Assay
