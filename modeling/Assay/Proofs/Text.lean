import Mathlib.Data.List.TakeWhile
import Assay.Text.Cut
import Assay.Text.Digit

/-!
# Cutting texts and reading numbers

A text put together from parts is cut into the same parts, as long as the mark between them does
not occur where it would be found first. A number that is short enough to be written is read back
from its text.
-/

namespace Assay.Text

theorem after?_eq_some_iff {w cs r : List Char} : after? w cs = some r ↔ cs = w ++ r := by
  induction w generalizing cs with
  | nil => simp [after?]
  | cons c w ih =>
    cases cs with
    | nil => simp [after?]
    | cons d cs =>
      by_cases h : c = d
      · simp [after?, h, ih]
      · simp [after?, h, Ne.symm h]

theorem isSome_cutAtWord?_iff {w cs : List Char} : (cutAtWord? w cs).isSome = true ↔ w <:+: cs := by
  induction cs with
  | nil =>
    cases w with
    | nil => simp [cutAtWord?, after?]
    | cons c w => simp [cutAtWord?, after?]
  | cons c cs ih =>
    rw [cutAtWord?, List.infix_cons_iff]
    cases h : after? w (c :: cs) with
    | some r => simp [after?_eq_some_iff.1 h]
    | none =>
      have hp : ¬ w <+: c :: cs := by
        rintro ⟨r, hr⟩
        rw [after?_eq_some_iff.2 hr.symm] at h
        cases h
      simpa [hp] using ih

theorem hasWord_iff {w s : String} : hasWord w s = true ↔ w.toList <:+: s.toList :=
  isSome_cutAtWord?_iff

theorem cutAt_of_not_mem {sep : Char} {cs : List Char} (h : sep ∉ cs) : cutAt sep cs = [cs] := by
  induction cs with
  | nil => rfl
  | cons c cs ih =>
    obtain ⟨hc, hcs⟩ := not_or.1 (List.mem_cons.not.1 h)
    simp [cutAt, Ne.symm hc, ih hcs]

theorem cutAt_append {sep : Char} {p : List Char} (r : List Char) (h : sep ∉ p) :
    cutAt sep (p ++ sep :: r) = p :: cutAt sep r := by
  induction p with
  | nil => simp [cutAt]
  | cons c p ih =>
    obtain ⟨hc, hp⟩ := not_or.1 (List.mem_cons.not.1 h)
    simp [cutAt, Ne.symm hc, ih hp]

/-- Pieces that are joined by a mark are cut apart at it. -/
theorem cutAt_intercalate {sep : Char} {p : List Char} {ps : List (List Char)}
    (h : ∀ q ∈ p :: ps, sep ∉ q) :
    cutAt sep ([sep].intercalate (p :: ps)) = p :: ps := by
  induction ps generalizing p with
  | nil => simpa using cutAt_of_not_mem (h p (by simp))
  | cons q ps ih =>
    rw [List.intercalate_cons_cons, List.append_assoc, List.singleton_append,
      cutAt_append _ (h p (by simp)), ih fun q hq => h q (by simp [hq])]

theorem cutAtFirst?_append {x : Char} {p : List Char} (r : List Char) (h : x ∉ p) :
    cutAtFirst? x (p ++ x :: r) = some (p, r) := by
  induction p with
  | nil => simp [cutAtFirst?]
  | cons c p ih =>
    obtain ⟨hc, hp⟩ := not_or.1 (List.mem_cons.not.1 h)
    simp [cutAtFirst?, Ne.symm hc, ih hp]

theorem eq_of_cutAtFirst? {x : Char} {cs p r : List Char} (h : cutAtFirst? x cs = some (p, r)) :
    cs = p ++ x :: r ∧ x ∉ p := by
  induction cs generalizing p with
  | nil => simp [cutAtFirst?] at h
  | cons c cs ih =>
    rw [cutAtFirst?] at h
    split at h
    next hc =>
      obtain ⟨rfl, rfl⟩ := Prod.mk.inj (Option.some.inj h)
      exact ⟨by rw [hc, List.nil_append], List.not_mem_nil⟩
    next hc =>
      obtain ⟨⟨q, r'⟩, hcut, heq⟩ := Option.map_eq_some_iff.1 h
      obtain ⟨rfl, rfl⟩ := Prod.mk.inj heq
      obtain ⟨rfl, hq⟩ := ih hcut
      exact ⟨rfl, List.mem_cons.not.2 (not_or.2 ⟨Ne.symm hc, hq⟩)⟩

theorem idxOf?_append {x : Char} {p : List Char} (r : List Char) (h : x ∉ p) :
    (p ++ x :: r).idxOf? x = some p.length := by
  induction p with
  | nil => simp [List.idxOf?_cons]
  | cons c p ih =>
    obtain ⟨hc, hp⟩ := not_or.1 (List.mem_cons.not.1 h)
    simp [List.idxOf?_cons, Ne.symm hc, ih hp]

theorem cutAtWord?_append {x : Char} {w p : List Char} (r : List Char) (h : x ∉ p) :
    cutAtWord? (x :: w) (p ++ (x :: w ++ r)) = some (p, r) := by
  have hword : after? (x :: w) (x :: w ++ r) = some r := after?_eq_some_iff.2 rfl
  induction p with
  | nil =>
    rw [List.nil_append, List.cons_append] at *
    rw [cutAtWord?, hword]
  | cons c p ih =>
    obtain ⟨hc, hp⟩ := not_or.1 (List.mem_cons.not.1 h)
    have hnone : after? (x :: w) (c :: (p ++ (x :: w ++ r))) = none := by simp [after?, hc]
    rw [List.cons_append, cutAtWord?, hnone, ih hp]
    rfl

theorem eq_of_cutAtWord? {w cs p r : List Char} (h : cutAtWord? w cs = some (p, r)) :
    cs = p ++ (w ++ r) := by
  induction cs generalizing p with
  | nil =>
    obtain ⟨r', hafter, heq⟩ := Option.map_eq_some_iff.1 h
    obtain ⟨rfl, rfl⟩ := Prod.mk.inj heq
    rw [List.nil_append, after?_eq_some_iff.1 hafter]
  | cons c cs ih =>
    rw [cutAtWord?] at h
    split at h
    next r' hafter =>
      obtain ⟨rfl, rfl⟩ := Prod.mk.inj (Option.some.inj h)
      rw [List.nil_append, after?_eq_some_iff.1 hafter]
    next =>
      obtain ⟨⟨q, r'⟩, hcut, heq⟩ := Option.map_eq_some_iff.1 h
      obtain ⟨rfl, rfl⟩ := Prod.mk.inj heq
      rw [ih hcut, List.cons_append]

theorem position_append {x : Char} {w p : List Char} (r : List Char) (h : x ∉ p) :
    position (String.ofList (x :: w)) (p ++ (x :: w ++ r)) = p.length := by
  simp only [position, String.toList_ofList, cutAtWord?_append r h]

theorem place_of_le {n i : Nat} (h : i ≤ n) : place n i = i := by
  simp only [place]
  omega

/-- A slice is what stands between two places. -/
theorem slice_eq {cs p q r : List Char} {lo hi : Int} (h : cs = p ++ (q ++ r)) (hlo : lo = p.length)
    (hhi : hi = (p.length + q.length : Nat)) : slice lo hi cs = q := by
  have hp : p.length ≤ cs.length := by simp [h]
  have hq : p.length + q.length ≤ cs.length := by simp [h]
  simp only [slice, hlo, hhi, place_of_le hp, place_of_le hq]
  rw [h, ← List.append_assoc, List.take_append_of_le_length (by simp),
    List.take_of_length_le (by simp)]
  exact List.drop_left

theorem cutAtLast?_eq_none {x : Char} {cs : List Char} (h : x ∉ cs) : cutAtLast? x cs = none := by
  induction cs with
  | nil => rfl
  | cons c cs ih =>
    obtain ⟨hc, hcs⟩ := not_or.1 (List.mem_cons.not.1 h)
    simp [cutAtLast?, ih hcs, Ne.symm hc]

theorem eq_of_cutAtLast? {x : Char} {cs p r : List Char} (h : cutAtLast? x cs = some (p, r)) :
    cs = p ++ x :: r := by
  induction cs generalizing p with
  | nil => simp [cutAtLast?] at h
  | cons c cs ih =>
    rw [cutAtLast?] at h
    split at h
    next q r' hcut =>
      obtain ⟨rfl, rfl⟩ := Prod.mk.inj (Option.some.inj h)
      rw [ih hcut, List.cons_append]
    next =>
      split at h
      next hc =>
        obtain ⟨rfl, rfl⟩ := Prod.mk.inj (Option.some.inj h)
        rw [hc, List.nil_append]
      next => cases h

theorem cutAtLast?_append {x : Char} (p : List Char) {r : List Char} (h : x ∉ r) :
    cutAtLast? x (p ++ x :: r) = some (p, r) := by
  induction p with
  | nil => simp [cutAtLast?, cutAtLast?_eq_none h]
  | cons c p ih => simp [cutAtLast?, ih]

theorem firstLine_eq_self {cs : List Char} (h : '\n' ∉ cs) : firstLine cs = cs := by
  rw [firstLine, List.takeWhile_eq_self_iff]
  intro c hc
  simpa using fun e : c = '\n' => h (e ▸ hc)

theorem takeWhile_append_stop {α : Type} {p : α → Bool} {xs : List α} (h : ∀ x ∈ xs, p x = true)
    {y : α} (hy : p y = false) (r : List α) : (xs ++ y :: r).takeWhile p = xs := by
  rw [List.takeWhile_append_of_pos h]
  simp [hy]

theorem dropEnds_eq_self {α : Type} {p : α → Bool} {xs : List α} (h : ∀ x ∈ xs, p x = false) :
    dropEnds p xs = xs := by
  have drop : ∀ ys : List α, (∀ x ∈ ys, p x = false) → ys.dropWhile p = ys := by
    intro ys hys
    cases ys with
    | nil => rfl
    | cons y ys => simp [hys y (by simp)]
  rw [dropEnds, drop xs h, dropEnd, drop _ (by simpa using h), List.reverse_reverse]

/-- The texts with a separator before each of them. -/
def moreText (sep : List Char) (css : List (List Char)) : List Char :=
  css.flatMap fun cs => sep ++ cs

theorem moreText_cons (sep cs : List Char) (css : List (List Char)) :
    moreText sep (cs :: css) = sep ++ (cs ++ moreText sep css) := by
  simp [moreText]

theorem intercalate_cons (sep cs : List Char) (css : List (List Char)) :
    sep.intercalate (cs :: css) = cs ++ moreText sep css := by
  induction css generalizing cs with
  | nil => simp [moreText]
  | cons ds css ih => simp [List.intercalate_cons_cons, ih, moreText]

theorem not_mem_intercalate {x : Char} {sep : List Char} (hx : x ∉ sep) {css : List (List Char)}
    (h : ∀ cs ∈ css, x ∉ cs) : x ∉ sep.intercalate css := by
  cases css with
  | nil => simp
  | cons cs css =>
    have hmore : x ∉ moreText sep css := by
      simp only [moreText, List.mem_flatMap, not_exists, not_and]
      intro ds hds hmem
      rcases List.mem_append.1 hmem with hmem | hmem
      · exact hx hmem
      · exact h ds (by simp [hds]) hmem
    rw [intercalate_cons, List.mem_append]
    exact not_or.2 ⟨h cs (by simp), hmore⟩

/-- To cut at one mark and join with another is to replace the one by the other. -/
theorem intercalate_cutAt (sep mark : Char) (cs : List Char) :
    [mark].intercalate (cutAt sep cs) = cs.map fun c => if c = sep then mark else c := by
  induction cs with
  | nil => rfl
  | cons c cs ih =>
    obtain ⟨p, ps, hcut⟩ := List.exists_cons_of_ne_nil (cutAt_ne_nil sep cs)
    rw [hcut, intercalate_cons] at ih
    rw [List.map_cons, ← ih, cutAt, hcut]
    by_cases hc : c = sep
    · rw [if_pos hc, if_pos hc, intercalate_cons, moreText_cons]
      rfl
    · rw [if_neg hc, if_neg hc]
      exact intercalate_cons _ _ _

theorem isBlank_of_isDigit {c : Char} (h : c.isDigit = true) : isBlank c = false := by
  have hc := Char.isDigit_iff_toNat.1 h
  simp only [isBlank, Bool.or_eq_false_iff, Bool.and_eq_false_iff, decide_eq_false_iff_not,
    beq_eq_false_iff_ne]
  have h0 : '0'.toNat = 48 := rfl
  have h9 : '9'.toNat = 57 := rfl
  omega

theorem digit?_of_isDigit {c : Char} (h : c.isDigit = true) : digit? c = some (c.toNat - 48) := by
  simp [digit?, h]

theorem isDecimal_of_isDigit {c : Char} (h : c.isDigit = true) : isDecimal c = true := by
  simp [isDecimal, digit?_of_isDigit h]

/-- The value of a digit of any script. -/
def digitValue (c : Char) : Nat := (digit? c).getD 0

theorem digit?_of_isDecimal {c : Char} (h : isDecimal c = true) :
    digit? c = some (digitValue c) := by
  obtain ⟨d, hd⟩ := Option.isSome_iff_exists.1 h
  rw [digitValue, hd, Option.getD_some]

theorem digitValue_of_isDigit {c : Char} (h : c.isDigit = true) : digitValue c = c.toNat - 48 := by
  rw [digitValue, digit?_of_isDigit h, Option.getD_some]

/-- A digit beyond ASCII is one of the ten of a script. -/
theorem exists_zero_of_isDecimal {c : Char} (h : isDecimal c = true) (hc : c.isDigit = false) :
    ∃ z ∈ zeros.toList, ∃ i ∈ List.range 10, c = Char.ofNat (z + i) := by
  have hfind : (zeros.find? fun z => z ≤ c.toNat && c.toNat < z + 10).isSome = true := by
    rw [isDecimal, digit?, hc, if_neg Bool.false_ne_true] at h
    split at h
    · exact absurd h Bool.false_ne_true
    · rwa [Option.isSome_map] at h
  obtain ⟨z, hz⟩ := Option.isSome_iff_exists.1 hfind
  have hrange := Array.find?_some hz
  simp only [Bool.and_eq_true, decide_eq_true_eq] at hrange
  refine ⟨z, Array.mem_toList_iff.2 (Array.mem_of_find?_eq_some hz), c.toNat - z,
    List.mem_range.2 (by omega), ?_⟩
  rw [Nat.add_sub_cancel' hrange.1, Char.ofNat_toNat]

theorem isBlank_of_isDecimal {c : Char} (h : isDecimal c = true) : isBlank c = false := by
  cases hc : c.isDigit with
  | true => exact isBlank_of_isDigit hc
  | false =>
    have hscripts : ∀ z ∈ zeros.toList, ∀ i ∈ List.range 10,
        isBlank (Char.ofNat (z + i)) = false := by
      decide +kernel
    obtain ⟨z, hz, i, hi, rfl⟩ := exists_zero_of_isDecimal h hc
    exact hscripts z hz i hi

/-- Digits without underscores are read one by one, whether or not a digit stands before them. -/
theorem digitsOf?_of_isDecimal (prev : Bool) {cs : List Char} (hne : cs ≠ [] ∨ prev = true)
    (h : ∀ c ∈ cs, isDecimal c = true) : digitsOf? prev cs = some (cs.map digitValue) := by
  induction cs generalizing prev with
  | nil => simp [digitsOf?, hne.resolve_left]
  | cons c cs ih =>
    have hc := h c (by simp)
    have hu : c ≠ '_' := by
      rintro rfl
      exact absurd hc (by decide)
    have hcs := ih true (.inr rfl) fun x hx => h x (by simp [hx])
    simp [digitsOf?, hu, digit?_of_isDecimal hc, hcs]

theorem digitsOf?_of_isDigit (prev : Bool) {cs : List Char} (hne : cs ≠ [] ∨ prev = true)
    (h : ∀ c ∈ cs, c.isDigit = true) : digitsOf? prev cs = some (cs.map fun c => c.toNat - 48) := by
  rw [digitsOf?_of_isDecimal prev hne fun c hc => isDecimal_of_isDigit (h c hc),
    List.map_congr_left fun c hc => digitValue_of_isDigit (h c hc)]

theorem numberOf_map (cs : List Char) (init : Nat) :
    (cs.map fun c => c.toNat - 48).foldl (fun n d => 10 * n + d) init =
      Nat.ofDigitChars 10 cs init := by
  induction cs generalizing init with
  | nil => simp
  | cons c cs ih => simpa [Nat.ofDigitChars_cons] using ih _

/-- The text of a number: its digits, after a minus sign if it is negative. -/
theorem toList_toString_int (n : Int) :
    (toString n).toList = (if n < 0 then ['-'] else []) ++ Nat.toDigits 10 n.natAbs := by
  rw [Int.toString_eq_repr, Int.repr_eq_if]
  by_cases h : 0 ≤ n
  · have hn : ¬ n < 0 := by omega
    have ha : n.toNat = n.natAbs := by omega
    simp [h, hn, ha]
  · have hn : n < 0 := by omega
    have ha : (-n).toNat = n.natAbs := by omega
    simp [h, hn, ha]

theorem isDigit_toDigits {n : Nat} {c : Char} (h : c ∈ Nat.toDigits 10 n) : c.isDigit = true :=
  Nat.isDigit_of_mem_toDigits (by decide) (by decide) h

theorem not_mem_toString {c : Char} (h : c.isDigit = false) (hc : c ≠ '-') (n : Int) :
    c ∉ (toString n).toList := by
  rw [toList_toString_int, List.mem_append]
  rintro (hmem | hmem)
  · split at hmem
    · exact hc (List.mem_singleton.1 hmem)
    · simp at hmem
  · rw [isDigit_toDigits hmem] at h
    exact Bool.noConfusion h

theorem length_toDigits_le {k : Nat} (hk : 0 < k) (n : Nat) :
    (Nat.toDigits 10 n).length ≤ k ↔ n < Nat.pow 10 k :=
  Nat.length_toDigits_le_iff (by decide) hk

theorem isWritable_iff {n : Int} :
    isWritable n = true ↔ (Nat.toDigits 10 n.natAbs).length ≤ maxDigits := by
  have hpos : 0 < maxDigits := by decide
  unfold isWritable writeBound
  generalize maxDigits = m at hpos ⊢
  rw [decide_eq_true_iff, length_toDigits_le hpos]

theorem isWritable_eq_false {n : Nat} (h : writeBound ≤ n) : isWritable n = false := by
  refine decide_eq_false ?_
  rw [Int.natAbs_natCast]
  exact Nat.not_lt.2 h

theorem isWritable_writeBound : isWritable writeBound = false :=
  isWritable_eq_false (Nat.le_refl _)

theorem isWritable_ofNat {n : Nat} (h : n < writeBound) : isWritable n = true := decide_eq_true h

theorem isWritable_pow_ten (k : Nat) : isWritable (Nat.pow 10 k) = true ↔ k < maxDigits := by
  unfold isWritable writeBound
  generalize maxDigits = m
  rw [decide_eq_true_iff, Int.natAbs_natCast]
  exact Nat.pow_lt_pow_iff_right (by decide)

theorem takeSign_of_isDecimal {d : Char} (h : isDecimal d = true) (ds : List Char) :
    takeSign (d :: ds) = (false, d :: ds) := by
  have hminus : d ≠ '-' := by rintro rfl; exact absurd h (by decide)
  have hplus : d ≠ '+' := by rintro rfl; exact absurd h (by decide)
  simp [takeSign, hminus, hplus]

/-- A sign and digits of any script are read as the number that the digits write, unless they are
too many. -/
theorem readInt_of_isDecimal {s : String} {negative : Bool} {ds : List Char}
    (hs : s.toList = (if negative then ['-'] else []) ++ ds) (hne : ds ≠ [])
    (hd : ∀ c ∈ ds, isDecimal c = true) :
    readInt s = if ds.length > maxDigits then .error (unreadable ds.length)
      else .ok (if negative then -(numberOf (ds.map digitValue) : Int)
        else numberOf (ds.map digitValue)) := by
  have hblank : ∀ c ∈ s.toList, isBlank c = false := by
    intro c hc
    rw [hs, List.mem_append] at hc
    rcases hc with hc | hc
    · cases negative with
      | false => simp at hc
      | true => rw [List.mem_singleton.1 hc]; decide
    · exact isBlank_of_isDecimal (hd c hc)
  have hsign : takeSign s.toList = (negative, ds) := by
    rw [hs]
    cases negative with
    | true => rfl
    | false =>
      obtain ⟨d, ds, rfl⟩ := List.exists_cons_of_ne_nil hne
      exact takeSign_of_isDecimal (hd d (by simp)) ds
  rw [readInt, dropEnds_eq_self hblank, hsign]
  simp [digitsOf?_of_isDecimal false (.inl hne) hd]

/-- A sign and ASCII digits that are not too many are read as the number that the digits write. -/
theorem readInt_eq {s : String} {negative : Bool} {ds : List Char}
    (hs : s.toList = (if negative then ['-'] else []) ++ ds) (hne : ds ≠ [])
    (hd : ∀ c ∈ ds, c.isDigit = true) (hl : ds.length ≤ maxDigits) :
    readInt s = .ok (if negative then -(Nat.ofDigitChars 10 ds 0 : Int)
      else Nat.ofDigitChars 10 ds 0) := by
  have hvalues : ds.map digitValue = ds.map fun c => c.toNat - 48 :=
    List.map_congr_left fun c hc => digitValue_of_isDigit (hd c hc)
  rw [readInt_of_isDecimal hs hne fun c hc => isDecimal_of_isDigit (hd c hc),
    if_neg (Nat.not_lt.2 hl), hvalues, numberOf, numberOf_map]

/-- Reading undoes writing for every number that is short enough to be written. -/
theorem readInt_toString {n : Int} (h : isWritable n = true) : readInt (toString n) = .ok n := by
  have hs : (toString n).toList =
      (if decide (n < 0) then ['-'] else []) ++ Nat.toDigits 10 n.natAbs := by
    simpa using toList_toString_int n
  rw [readInt_eq hs (by simp) (fun c hc => isDigit_toDigits hc) (isWritable_iff.1 h),
    Nat.ofDigitChars_ten_toDigits]
  by_cases hn : n < 0
  · rw [decide_eq_true hn, if_pos rfl, Int.ofNat_natAbs_of_nonpos (Int.le_of_lt hn), Int.neg_neg]
  · rw [decide_eq_false hn, if_neg Bool.false_ne_true, Int.natAbs_of_nonneg (Int.not_lt.1 hn)]

end Assay.Text
