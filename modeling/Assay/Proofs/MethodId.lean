import Assay.MethodId
import Assay.Proofs.Text

/-!
# Identifiers are read back

The descriptor of a type without classes is one letter after some array marks, so a descriptor, and
a list of descriptors, is read back whatever follows it. The text of an identifier is cut at its
last point, its last `)` and its last `:(`, none of which a descriptor holds: class and method
names are free to hold the others.
-/

namespace Assay

theorem ClassName.toList_slashed (c : ClassName) :
    c.slashed.toList = c.text.toList.map fun x => if x = '.' then '/' else x := by
  have hsplit : c.parts.map String.toList = Text.cutAt '.' c.text.toList := by
    simp [ClassName.parts, Text.split, Function.comp_def]
  rw [ClassName.slashed, String.toList_intercalate, hsplit]
  exact Text.intercalate_cutAt '.' '/' _

namespace Ty

/-- The type is a simple type, the plain reference, or an array of such to any depth. -/
def isPlain : Ty → Bool
  | object _ => false
  | array t => t.isPlain
  | _ => true

/-- The characters that descriptors of plain types are made of. -/
def plainChars : List Char := ['Z', 'I', 'B', 'C', 'S', 'J', 'F', 'D', 'A', '[']

theorem mem_plainChars_of_mem_encode {t : Ty} (ht : t.isPlain = true) {c : Char}
    (h : c ∈ t.encode.toList) : c ∈ plainChars := by
  induction t with
  | object n => simp [isPlain] at ht
  | array t ih =>
    have hc : c = '[' ∨ c ∈ t.encode.toList := by simpa [encode] using h
    rcases hc with rfl | hc
    · simp [plainChars]
    · exact ih ht hc
  | _ =>
    simp [encode] at h
    simp [plainChars, h]

theorem mem_plainChars_of_mem_encodeAll {ts : List Ty} (hts : ∀ t ∈ ts, t.isPlain = true) {c : Char}
    (h : c ∈ (encodeAll ts).toList) : c ∈ plainChars := by
  rw [encodeAll, String.toList_join, List.mem_flatMap] at h
  obtain ⟨s, hs, hc⟩ := h
  obtain ⟨t, ht, rfl⟩ := List.mem_map.1 hs
  exact mem_plainChars_of_mem_encode (hts t ht) hc

theorem encode_ne_nil (t : Ty) : t.encode.toList ≠ [] := by
  cases t <;> simp [encode]

theorem toList_encode_array (t : Ty) : (array t).encode.toList = '[' :: t.encode.toList := by
  simp [encode]

theorem toList_encodeAll_cons (t : Ty) (ts : List Ty) :
    (encodeAll (t :: ts)).toList = t.encode.toList ++ (encodeAll ts).toList := by
  simp [encodeAll]

/-- A descriptor at the front of a text is read back, and what follows it is left. -/
theorem decodeFrom_encode {t : Ty} (ht : t.isPlain = true) (whole : String) (rest : List Char) :
    decodeFrom whole (t.encode.toList ++ rest) = .ok (t, rest) := by
  induction t with
  | object n => simp [isPlain] at ht
  | array t ih =>
    rw [toList_encode_array, List.cons_append, decodeFrom, if_pos rfl, ih ht]
    rfl
  | _ => rfl

theorem decodeAllFrom_encodeAll {ts : List Ty} (hts : ∀ t ∈ ts, t.isPlain = true) {fuel : Nat}
    (hf : ts.length ≤ fuel) : decodeAllFrom fuel (encodeAll ts).toList = .ok ts := by
  induction ts generalizing fuel with
  | nil => cases fuel <;> rfl
  | cons t ts ih =>
    obtain ⟨fuel, rfl⟩ := Nat.exists_eq_succ_of_ne_zero (by simp at hf; omega : fuel ≠ 0)
    obtain ⟨c, cs, hc⟩ := List.exists_cons_of_ne_nil (encode_ne_nil t)
    have hread := decodeFrom_encode (hts t (by simp))
      (String.ofList (t.encode.toList ++ (encodeAll ts).toList)) (encodeAll ts).toList
    have hrest := ih (fun u hu => hts u (by simp [hu])) (by simpa using hf)
    rw [hc, List.cons_append] at hread
    rw [toList_encodeAll_cons, hc, List.cons_append, decodeAllFrom, hread]
    simp [bind, Except.bind, hrest, pure, Except.pure]

theorem length_le_encodeAll (ts : List Ty) : ts.length ≤ (encodeAll ts).toList.length := by
  induction ts with
  | nil => simp
  | cons t ts ih =>
    have hpos := List.length_pos_iff.2 (encode_ne_nil t)
    rw [toList_encodeAll_cons, List.length_append, List.length_cons]
    omega

theorem decodeAll_encodeAll {ts : List Ty} (hts : ∀ t ∈ ts, t.isPlain = true) :
    decodeAll (encodeAll ts).toList = .ok ts :=
  decodeAllFrom_encodeAll hts (length_le_encodeAll ts)

end Ty

namespace Signature

theorem cutAtOpening?_eq_none {cs : List Char} (h : '(' ∉ cs.tail) : cutAtOpening? cs = none := by
  induction cs with
  | nil => rfl
  | cons c cs ih =>
    have hcs : '(' ∉ cs := h
    have hafter : Text.after? [':', '('] (c :: cs) = none := by
      cases cs with
      | nil => simp [Text.after?]
      | cons d ds =>
        have hd : ¬ '(' = d := fun e => hcs (e ▸ List.mem_cons_self)
        simp [Text.after?, hd]
    rw [cutAtOpening?, ih fun hmem => hcs (List.mem_of_mem_tail hmem), hafter]

theorem cutAtOpening?_append (p : List Char) {r : List Char} (h : '(' ∉ r) :
    cutAtOpening? (p ++ ':' :: '(' :: r) = some (p, r) := by
  induction p with
  | nil =>
    have hnone : cutAtOpening? ('(' :: r) = none := cutAtOpening?_eq_none h
    rw [List.nil_append, cutAtOpening?, hnone]
    simp [Text.after?]
  | cons c p ih => simp [cutAtOpening?, ih]

theorem toList_encode (s : Signature) : s.encode.toList =
    s.name.toList ++ ':' :: '(' :: (Ty.encodeAll s.params).toList ++
      ')' :: (returnText s.ret).toList := by
  simp [encode, toString]

theorem mem_returnText {ret : Option Ty} (h : ∀ t ∈ ret, t.isPlain = true) {c : Char}
    (hc : c ∈ (returnText ret).toList) : c ∈ 'V' :: Ty.plainChars := by
  cases ret with
  | none => simpa [returnText] using Or.inl hc
  | some t => exact List.mem_cons_of_mem _ (Ty.mem_plainChars_of_mem_encode (h t rfl) hc)

theorem decodeReturn_returnText {ret : Option Ty} (h : ∀ t ∈ ret, t.isPlain = true) :
    decodeReturn (returnText ret).toList = .ok ret := by
  cases ret with
  | none => rfl
  | some t =>
    have hne : t.encode.toList ≠ ['V'] := by
      intro he
      have hv :=
        Ty.mem_plainChars_of_mem_encode (h t rfl) (by rw [he]; simp : 'V' ∈ t.encode.toList)
      exact absurd hv (by decide)
    have hread := Ty.decodeFrom_encode (h t rfl) (String.ofList t.encode.toList) []
    rw [List.append_nil] at hread
    show decodeReturn t.encode.toList = .ok (some t)
    simp only [decodeReturn, if_neg hne, hread]
    rfl

end Signature

/-- The names and types of an identifier hold nothing at which its text would be cut wrongly. -/
structure MethodId.IsPlain (m : MethodId) : Prop where
  owner_ne : m.owner.text ≠ ""
  owner : ∀ c ∈ m.owner.text.toList, c ≠ ' ' ∧ c ≠ '\n'
  name : ∀ c ∈ m.signature.name.toList, c ≠ '.' ∧ c ≠ ' ' ∧ c ≠ '\n'
  params : ∀ t ∈ m.signature.params, t.isPlain = true
  ret : ∀ t ∈ m.signature.ret, t.isPlain = true

namespace MethodId.IsPlain

variable {m : MethodId}

/-- The characters of a signature: those of the name, and a few of its own. -/
theorem signature_chars (h : m.IsPlain) {c : Char} (hc : c ∈ m.signature.encode.toList) :
    c ∈ m.signature.name.toList ∨ c ∈ [':', '(', ')', 'V'] ++ Ty.plainChars := by
  rw [Signature.toList_encode] at hc
  simp only [List.mem_append, List.mem_cons] at hc
  rcases hc with (hc | rfl | rfl | hc) | rfl | hc
  · exact .inl hc
  · exact .inr (by simp)
  · exact .inr (by simp)
  · exact .inr (List.mem_append_right _ (Ty.mem_plainChars_of_mem_encodeAll h.params hc))
  · exact .inr (by simp)
  · rcases List.mem_cons.1 (Signature.mem_returnText h.ret hc) with rfl | hc
    · exact .inr (by simp)
    · exact .inr (List.mem_append_right _ hc)

theorem not_mem_signature (h : m.IsPlain) {c : Char} (hn : c ∉ m.signature.name.toList)
    (hc : c ∉ [':', '(', ')', 'V'] ++ Ty.plainChars) : c ∉ m.signature.encode.toList :=
  fun hmem => (h.signature_chars hmem).elim hn hc

theorem toList_encode : m.encode.toList =
    m.owner.text.toList ++ '.' :: m.signature.encode.toList := by
  simp [encode]

theorem not_mem_encode (h : m.IsPlain) {c : Char} (hc : c = ' ' ∨ c = '\n') :
    c ∉ m.encode.toList := by
  have howner : c ∉ m.owner.text.toList := fun hmem => by
    rcases hc with rfl | rfl
    · exact (h.owner _ hmem).1 rfl
    · exact (h.owner _ hmem).2 rfl
  have hname : c ∉ m.signature.name.toList := fun hmem => by
    rcases hc with rfl | rfl
    · exact (h.name _ hmem).2.1 rfl
    · exact (h.name _ hmem).2.2 rfl
  have hsig := h.not_mem_signature hname (by rcases hc with rfl | rfl <;> decide)
  have hdot : c ≠ '.' := by rcases hc with rfl | rfl <;> decide
  rw [toList_encode, List.mem_append, List.mem_cons]
  rintro (hmem | hmem | hmem)
  exacts [howner hmem, hdot hmem, hsig hmem]

theorem decodeFrom_signature (h : m.IsPlain) :
    Signature.decodeFrom m.signature.encode.toList = .ok m.signature := by
  have hline : '\n' ∉ m.signature.encode.toList :=
    h.not_mem_signature (fun hmem => (h.name _ hmem).2.2 rfl) (by decide)
  have hclose : ')' ∉ (Signature.returnText m.signature.ret).toList := fun hmem =>
    absurd (Signature.mem_returnText h.ret hmem) (by decide)
  have hopen : '(' ∉ (Ty.encodeAll m.signature.params).toList := fun hmem =>
    absurd (Ty.mem_plainChars_of_mem_encodeAll h.params hmem) (by decide)
  have hparts : Signature.parts? m.signature.encode.toList =
      some (m.signature.name.toList, (Ty.encodeAll m.signature.params).toList,
        (Signature.returnText m.signature.ret).toList) := by
    rw [Signature.parts?, Text.firstLine_eq_self hline, Signature.toList_encode,
      Text.cutAtLast?_append _ hclose]
    simp only [Option.bind_eq_bind, Option.bind_some, Signature.cutAtOpening?_append _ hopen]
    rfl
  rw [Signature.decodeFrom, hparts]
  simp [bind, Except.bind, Signature.decodeReturn_returnText h.ret, Ty.decodeAll_encodeAll h.params,
    pure, Except.pure]

/-- Reading undoes writing for identifiers. -/
theorem decode_encode (h : m.IsPlain) : MethodId.decode m.encode = .ok m := by
  have hdot : '.' ∉ m.signature.encode.toList :=
    h.not_mem_signature (fun hmem => (h.name _ hmem).1 rfl) (by decide)
  have hne : m.owner.text.toList ≠ [] := by simpa using h.owner_ne
  obtain ⟨c, cs, hc⟩ := List.exists_cons_of_ne_nil hne
  have hparts : ownerParts m.encode.toList =
      .ok (m.owner.text.toList, m.signature.encode.toList) := by
    rw [ownerParts, Text.firstLine_eq_self (h.not_mem_encode (.inr rfl)), toList_encode,
      Text.cutAtLast?_append _ hdot, hc]
  rw [MethodId.decode, hparts]
  simp [bind, Except.bind, h.decodeFrom_signature, pure, Except.pure]

end MethodId.IsPlain

end Assay
