import Assay.Proofs.MethodId

/-!
# Descriptors are uniquely decodable

Nothing stands between the descriptors of a list of types, but the first one can be split off again.
Its first character tells its kind, array marks stand before the descriptor of what the array holds,
and the name of a class ends at the first semicolon. The name is found again too, if the only
slashes in its descriptor are those written for points. So lists of types that share a text are the
same, unless a class name holds a slash or a semicolon.
-/

namespace Assay

namespace ClassName

variable {c : ClassName}

theorem replaceChar_slashed (h : '/' ∉ c.text.toList) :
    Text.replaceChar '/' '.' c.slashed = c.text := by
  have hback : ∀ x ∈ c.text.toList,
      ((fun x => if x = '/' then '.' else x) ∘ fun x => if x = '.' then '/' else x) x = x := by
    intro x hx
    have hslash : x ≠ '/' := fun e => h (e ▸ hx)
    by_cases hpoint : x = '.'
    · simp [hpoint]
    · simp [hpoint, hslash]
  rw [Text.replaceChar, toList_slashed, List.map_map, List.map_congr_left hback, List.map_id',
    String.ofList_toList]

theorem semicolon_not_mem_slashed (h : ';' ∉ c.text.toList) : ';' ∉ c.slashed.toList := by
  rw [toList_slashed, List.mem_map]
  rintro ⟨x, hx, heq⟩
  by_cases hpoint : x = '.'
  · simp [hpoint] at heq
  · rw [if_neg hpoint] at heq
    exact h (heq ▸ hx)

end ClassName

namespace Ty

/-- If the type names a class, its name holds no slash and no semicolon. -/
def isSeparable : Ty → Bool
  | object c => !c.text.toList.contains '/' && !c.text.toList.contains ';'
  | array t => t.isSeparable
  | _ => true

/-- The type whose descriptor stands at the front of a text, and what follows it. -/
def splitOff? : List Char → Option (Ty × List Char)
  | [] => none
  | c :: cs =>
    if c = '[' then (splitOff? cs).map fun p => (array p.1, p.2)
    else if c = 'L' then
      (Text.cutAtFirst? ';' cs).map fun p =>
        (object ⟨Text.replaceChar '/' '.' (String.ofList p.1)⟩, p.2)
    else (ofLetter? c).map fun t => (t, cs)

variable {t u : Ty}

theorem splitOff?_encode (ht : t.isSeparable = true) (rest : List Char) :
    splitOff? (t.encode.toList ++ rest) = some (t, rest) := by
  induction t with
  | object c =>
    obtain ⟨hslash, hstop⟩ : '/' ∉ c.text.toList ∧ ';' ∉ c.text.toList := by
      simpa [isSeparable] using ht
    have hlist : (object c).encode.toList ++ rest = 'L' :: (c.slashed.toList ++ ';' :: rest) := by
      simp [encode]
    -- the name holds no semicolon, so the first one ends the descriptor
    rw [hlist, splitOff?, if_neg (by decide), if_pos rfl,
      Text.cutAtFirst?_append rest (ClassName.semicolon_not_mem_slashed hstop)]
    simp [ClassName.replaceChar_slashed hslash]
  | array t ih =>
    rw [toList_encode_array, List.cons_append, splitOff?, if_pos rfl, ih ht]
    rfl
  | _ => rfl

theorem encode_append_inj (ht : t.isSeparable = true) (hu : u.isSeparable = true) {r s : List Char}
    (h : t.encode.toList ++ r = u.encode.toList ++ s) : t = u ∧ r = s := by
  have hsplit := splitOff?_encode ht r
  rw [h, splitOff?_encode hu s] at hsplit
  obtain ⟨rfl, rfl⟩ := Prod.mk.inj (Option.some.inj hsplit)
  exact ⟨rfl, rfl⟩

theorem encodeAll_inj {ts us : List Ty} (hts : ∀ t ∈ ts, t.isSeparable = true)
    (hus : ∀ u ∈ us, u.isSeparable = true)
    (h : (encodeAll ts).toList = (encodeAll us).toList) : ts = us := by
  induction ts generalizing us with
  | nil =>
    cases us with
    | nil => rfl
    | cons u us =>
      rw [toList_encodeAll_cons] at h
      exact absurd (List.append_eq_nil_iff.1 h.symm).1 (encode_ne_nil u)
  | cons t ts ih =>
    cases us with
    | nil =>
      rw [toList_encodeAll_cons] at h
      exact absurd (List.append_eq_nil_iff.1 h).1 (encode_ne_nil t)
    | cons u us =>
      obtain ⟨ht, hts'⟩ := List.forall_mem_cons.1 hts
      obtain ⟨hu, hus'⟩ := List.forall_mem_cons.1 hus
      rw [toList_encodeAll_cons, toList_encodeAll_cons] at h
      obtain ⟨rfl, hrest⟩ := encode_append_inj ht hu h
      rw [ih hts' hus' hrest]

/-- Lists of types have the same descriptors only if they are the same, as far as no class name in
them holds a slash or a semicolon. -/
theorem encodeAll_eq_iff_eq {ts us : List Ty} (hts : ∀ t ∈ ts, t.isSeparable = true)
    (hus : ∀ u ∈ us, u.isSeparable = true) : encodeAll ts = encodeAll us ↔ ts = us :=
  ⟨fun h => encodeAll_inj hts hus (congrArg String.toList h), congrArg encodeAll⟩

/-- A letter after a class is a type of its own, also where the class and the letter could be one
name. -/
theorem encodeAll_ne_of_letter :
    let ts := [array (array (object ⟨"a.B"⟩)), int, reference]
    let us := [array (array (object ⟨"a.BI"⟩)), reference]
    (∀ t ∈ ts, t.isSeparable = true) ∧ (∀ u ∈ us, u.isSeparable = true) ∧
    encodeAll ts ≠ encodeAll us := by
  intro ts us
  have hts : ∀ t ∈ ts, t.isSeparable = true := by decide
  have hus : ∀ u ∈ us, u.isSeparable = true := by decide
  exact ⟨hts, hus, fun h => absurd ((encodeAll_eq_iff_eq hts hus).1 h) (by decide)⟩

-- neither a slash nor a semicolon may stand in a name
example : encodeAll [object ⟨"a/B"⟩] = encodeAll [object ⟨"a.B"⟩] := by decide

example : encodeAll [object ⟨"A;LB"⟩] = encodeAll [object ⟨"A"⟩, object ⟨"B"⟩] := by decide

end Ty

end Assay
