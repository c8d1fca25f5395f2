import Assay.Decimal.Written
import Assay.Proofs.Text
import Assay.Text.Lines

/-!
# Texts made of lines

A text whose breaks are all line feeds, the last character among them, is its lines with a line feed
after each of them, and lines that are put together so are cut apart again.
-/

namespace Assay.Text

/-- The text has no break in it. -/
def IsLine (s : String) : Prop := ∀ c ∈ s.toList, isBreak c = false

instance (s : String) : Decidable (IsLine s) :=
  List.decidableBAll (fun c => isBreak c = false) s.toList

theorem IsLine.append {s t : String} (hs : IsLine s) (ht : IsLine t) : IsLine (s ++ t) := by
  intro c hc
  rw [String.toList_append, List.mem_append] at hc
  exact hc.elim (hs c) (ht c)

theorem IsLine.of_subset {s : String} {cs : List Char} (hs : IsLine s) (h : cs ⊆ s.toList) :
    IsLine (String.ofList cs) :=
  fun c hc => hs c (h (by simpa using hc))

/-- The text that has these lines, each ended by a line feed. -/
def ofLines (lines : List String) : String := String.join (lines.map (· ++ "\n"))

@[simp] theorem ofLines_nil : ofLines [] = "" := rfl

@[simp] theorem ofLines_cons (line : String) (lines : List String) :
    ofLines (line :: lines) = line ++ ("\n" ++ ofLines lines) := by
  simp [ofLines, String.append_assoc]

theorem keptLinesFrom_line {cs : List Char} (h : ∀ c ∈ cs, isBreak c = false)
    (rest acc : List Char) :
    keptLinesFrom (cs ++ '\n' :: rest) acc =
      (acc.reverse ++ (cs ++ ['\n'])) :: keptLinesFrom rest [] := by
  induction cs generalizing acc with
  | nil => simp [keptLinesFrom, isBreak]
  | cons c cs ih =>
    have hc := h c (by simp)
    have hcr : c ≠ '\r' := by rintro rfl; exact absurd hc (by decide)
    have hcs := ih (fun x hx => h x (by simp [hx])) (c :: acc)
    simpa [keptLinesFrom, hc, hcr] using hcs

/-- Pieces into which a text is cut after its line feeds: the last one may lack the line feed. -/
inductive AreCut : List String → Prop
  | nil : AreCut []
  | last {line : String} (h : IsLine line) (hne : line ≠ "") : AreCut [line]
  | cons {line : String} {pieces : List String} (h : IsLine line) (hs : AreCut pieces) :
      AreCut ((line ++ "\n") :: pieces)

theorem areCut_map {lines : List String} (h : ∀ l ∈ lines, IsLine l) :
    AreCut (lines.map (· ++ "\n")) := by
  induction lines with
  | nil => exact .nil
  | cons line lines ih => exact .cons (h line (by simp)) (ih fun l hl => h l (by simp [hl]))

theorem keptLinesFrom_last {cs : List Char} (h : ∀ c ∈ cs, isBreak c = false) (acc : List Char)
    (hne : acc.reverse ++ cs ≠ []) : keptLinesFrom cs acc = [acc.reverse ++ cs] := by
  induction cs generalizing acc with
  | nil =>
    cases acc with
    | nil => simp at hne
    | cons c acc => simp [keptLinesFrom]
  | cons c cs ih =>
    have hc := h c (by simp)
    have hcr : c ≠ '\r' := by rintro rfl; exact absurd hc (by decide)
    have hcs := ih (fun x hx => h x (by simp [hx])) (c :: acc) (by simp)
    simpa [keptLinesFrom, hc, hcr] using hcs

/-- Pieces that are put together are cut apart again. -/
theorem AreCut.keptLines_join {pieces : List String} (h : AreCut pieces) :
    keptLines (String.join pieces) = pieces := by
  induction h with
  | nil => simp [keptLines, keptLinesFrom]
  | @last line h hne =>
    have hlast := keptLinesFrom_last h [] (by simpa using hne)
    simpa [keptLines] using congrArg (List.map String.ofList) hlast
  | @cons line pieces h _ ih =>
    have hfirst := keptLinesFrom_line h (String.join pieces).toList []
    have htext : (String.join ((line ++ "\n") :: pieces)).toList =
        line.toList ++ '\n' :: (String.join pieces).toList := by
      simp
    rw [keptLines, htext, hfirst, List.map_cons, ← keptLines, ih]
    congr 1
    simp

theorem areCut_keptLinesFrom {cs : List Char} (hbreak : ∀ c ∈ cs, isBreak c = true → c = '\n')
    (acc : List Char) (hacc : ∀ c ∈ acc, isBreak c = false) :
    AreCut ((keptLinesFrom cs acc).map String.ofList) := by
  have hline : IsLine (String.ofList acc.reverse) := fun c hc => hacc c (by simpa using hc)
  induction cs generalizing acc with
  | nil =>
    cases acc with
    | nil => exact .nil
    | cons c acc => exact .last hline (by simp [← String.toList_inj])
  | cons c cs ih =>
    have hcs : ∀ x ∈ cs, isBreak x = true → x = '\n' := fun x hx => hbreak x (by simp [hx])
    have hcr : c ≠ '\r' := by
      rintro rfl
      exact absurd (hbreak '\r' (by simp) (by decide)) (by decide)
    cases hc : isBreak c with
    | true =>
      obtain rfl := hbreak c (by simp) hc
      have hrest := ih hcs [] (by simp) (by decide)
      have hpiece : String.ofList (('\n' :: acc).reverse) = String.ofList acc.reverse ++ "\n" := by
        simp
      rw [keptLinesFrom, if_pos hc, List.map_cons, hpiece]
      · exact .cons hline hrest
      · simp
    | false =>
      have hacc' : ∀ x ∈ c :: acc, isBreak x = false := List.forall_mem_cons.2 ⟨hc, hacc⟩
      rw [keptLinesFrom, if_neg (by simp [hc])]
      · exact ih hcs (c :: acc) hacc' fun x hx => hacc' x (List.mem_reverse.1 (by simpa using hx))
      · simp [hcr]

theorem areCut_keptLines {text : String} (hbreak : ∀ c ∈ text.toList, isBreak c = true → c = '\n') :
    AreCut (keptLines text) := areCut_keptLinesFrom hbreak [] (by simp)

theorem AreCut.breaks {pieces : List String} (h : AreCut pieces) :
    ∀ c ∈ (String.join pieces).toList, isBreak c = true → c = '\n' := by
  induction h with
  | nil => simp
  | last h hne =>
    intro c hc hbreak
    exact absurd (h c (by simpa using hc)) (by simp [hbreak])
  | cons h _ ih =>
    intro c hc hbreak
    simp only [String.join_cons, String.toList_append, List.mem_append] at hc
    rcases hc with (hc | hc) | hc
    · exact absurd (h c hc) (by simp [hbreak])
    · simpa using hc
    · exact ih c hc hbreak

theorem AreCut.isLine {pieces : List String} (h : AreCut pieces) {line : String}
    (hmem : line ++ "\n" ∈ pieces) :
    IsLine line := by
  induction h with
  | nil => simp at hmem
  | last h hne =>
    rw [List.mem_singleton] at hmem
    exact absurd (h '\n' (by rw [← hmem]; simp)) (by decide)
  | cons h _ ih =>
    rcases List.mem_cons.1 hmem with heq | hmem
    · obtain rfl : line = _ := by simpa [← String.toList_inj] using heq
      exact h
    · exact ih hmem

theorem AreCut.mapIdx {f : Nat → String → String} {pieces : List String}
    (hpiece : ∀ i line, IsLine line → ∃ line', IsLine line' ∧ f i (line ++ "\n") = line' ++ "\n")
    (hlast : ∀ i line, IsLine line → line ≠ "" → AreCut [f i line]) (h : AreCut pieces) :
    AreCut (pieces.mapIdx f) := by
  induction h generalizing f with
  | nil => exact .nil
  | last h hne => exact hlast 0 _ h hne
  | cons h _ ih =>
    obtain ⟨line', hline', heq⟩ := hpiece 0 _ h
    rw [List.mapIdx_cons, heq]
    exact .cons hline' (ih (fun i => hpiece (i + 1)) fun i => hlast (i + 1))

theorem keptLines_ofLines {lines : List String} (h : ∀ l ∈ lines, IsLine l) :
    keptLines (ofLines lines) = lines.map (· ++ "\n") := (areCut_map h).keptLines_join

theorem linesFrom_line {cs : List Char} (h : ∀ c ∈ cs, isBreak c = false) (rest acc : List Char) :
    linesFrom (cs ++ '\n' :: rest) acc = (acc.reverse ++ cs) :: linesFrom rest [] := by
  induction cs generalizing acc with
  | nil => simp [linesFrom, isBreak]
  | cons c cs ih =>
    have hc := h c (by simp)
    have hcr : c ≠ '\r' := by rintro rfl; exact absurd hc (by decide)
    have hcs := ih (fun x hx => h x (by simp [hx])) (c :: acc)
    simpa [linesFrom, hc, hcr] using hcs

theorem lines_ofLines {ls : List String} (h : ∀ l ∈ ls, IsLine l) : lines (ofLines ls) = ls := by
  induction ls with
  | nil => simp [lines, linesFrom]
  | cons line ls ih =>
    have hrest := ih fun l hl => h l (by simp [hl])
    have hfirst := linesFrom_line (h line (by simp)) (ofLines ls).toList []
    have htext : (ofLines (line :: ls)).toList = line.toList ++ '\n' :: (ofLines ls).toList := by
      simp
    rw [lines, htext, hfirst, List.map_cons, ← lines, hrest]
    simp

theorem linesFrom_last {cs : List Char} (h : ∀ c ∈ cs, isBreak c = false) (acc : List Char)
    (hne : acc.reverse ++ cs ≠ []) : linesFrom cs acc = [acc.reverse ++ cs] := by
  induction cs generalizing acc with
  | nil =>
    cases acc with
    | nil => simp at hne
    | cons c acc => simp [linesFrom]
  | cons c cs ih =>
    have hc := h c (by simp)
    have hcr : c ≠ '\r' := by rintro rfl; exact absurd hc (by decide)
    have hcs := ih (fun x hx => h x (by simp [hx])) (c :: acc) (by simp)
    simpa [linesFrom, hc, hcr] using hcs

theorem lines_of_isLine {s : String} (h : IsLine s) (hne : s ≠ "") : lines s = [s] := by
  have hlast := linesFrom_last h [] (by simpa using hne)
  simpa [lines] using congrArg (List.map String.ofList) hlast

/-- A text that ends with a line feed and has no other breaks is put together from lines. -/
theorem exists_ofLines {cs : List Char} (hbreak : ∀ c ∈ cs, isBreak c = true → c = '\n')
    (hlast : ∀ c ∈ cs.getLast?, c = '\n') :
    ∃ ls : List String, (∀ l ∈ ls, IsLine l) ∧ String.ofList cs = ofLines ls := by
  induction cs with
  | nil => exact ⟨[], by simp, rfl⟩
  | cons c cs ih =>
    obtain ⟨ls, hls, hcs⟩ := ih (fun x hx => hbreak x (by simp [hx])) (by
      intro x hx
      refine hlast x ?_
      cases cs with
      | nil => simp at hx
      | cons d cs => simpa using hx)
    by_cases hc : c = '\n'
    · subst hc
      refine ⟨"" :: ls, by simpa using ⟨by decide, hls⟩, ?_⟩
      rw [ofLines_cons, ← hcs]
      simp
    · have hplain : isBreak c = false := by
        cases hb : isBreak c with
        | false => rfl
        | true => exact absurd (hbreak c (by simp) hb) hc
      -- the character belongs to the first line of the rest, which is not empty
      cases ls with
      | nil =>
        have hnil : cs = [] := by simpa [← String.toList_inj] using hcs
        subst hnil
        exact absurd (hlast c (by simp)) hc
      | cons line ls =>
        refine ⟨String.ofList (c :: line.toList) :: ls, ?_, ?_⟩
        · intro l hl
          rcases List.mem_cons.1 hl with rfl | hl
          · intro x hx
            rcases List.mem_cons.1 (by simpa using hx : x ∈ c :: line.toList) with rfl | hx
            · exact hplain
            · exact hls line (by simp) x hx
          · exact hls l (by simp [hl])
        · rw [← String.toList_inj] at hcs ⊢
          simpa using hcs

theorem ofLines_lines {text : String} (hbreak : ∀ c ∈ text.toList, isBreak c = true → c = '\n')
    (hlast : text.toList.getLast? = some '\n') :
    ofLines (lines text) = text ∧ ∀ l ∈ lines text, IsLine l := by
  obtain ⟨ls, hls, htext⟩ := exists_ofLines hbreak fun c hc => by simpa [hlast, eq_comm] using hc
  rw [String.ofList_toList] at htext
  rw [htext, lines_ofLines hls]
  exact ⟨rfl, hls⟩

theorem feedLinesFrom_append {cs : List Char} (rest acc : List Char) (h : '\n' ∉ cs) :
    feedLinesFrom (cs ++ '\n' :: rest) acc =
      (acc.reverse ++ (cs ++ ['\n'])) :: feedLinesFrom rest [] := by
  induction cs generalizing acc with
  | nil => simp [feedLinesFrom]
  | cons c cs ih =>
    obtain ⟨hc, hcs⟩ := not_or.1 (List.mem_cons.not.1 h)
    rw [List.cons_append, feedLinesFrom, if_neg (Ne.symm hc), ih (c :: acc) hcs]
    simp

/-- The first line of a text ends with its first line feed. -/
theorem feedLines_append {line : String} (more : String) (h : '\n' ∉ line.toList) :
    feedLines (line ++ "\n" ++ more) = (line ++ "\n") :: feedLines more := by
  have htext : (line ++ "\n" ++ more).toList = line.toList ++ '\n' :: more.toList := by simp
  have hline : String.ofList (line.toList ++ ['\n']) = line ++ "\n" := by
    rw [← String.toList_inj]
    simp
  rw [feedLines, htext, feedLinesFrom_append _ _ h, List.map_cons, List.reverse_nil,
    List.nil_append, hline, feedLines]

theorem isBreak_of_isDigit {c : Char} (h : c.isDigit = true) : isBreak c = false := by
  have hc := Char.isDigit_iff_toNat.1 h
  have h0 : '0'.toNat = 48 := rfl
  have h9 : '9'.toNat = 57 := rfl
  simp only [isBreak, Bool.or_eq_false_iff, Bool.and_eq_false_iff, decide_eq_false_iff_not,
    beq_eq_false_iff_ne]
  omega

theorem isLine_toString (n : Nat) : IsLine (toString n) := by
  intro c hc
  rw [Nat.toString_eq_repr, Nat.repr, String.toList_ofList] at hc
  exact isBreak_of_isDigit (isDigit_toDigits hc)

end Assay.Text

namespace Assay.Decimal

open Text (IsLine)

theorem forall_mem_placed {p : Char → Prop} (hdigit : ∀ c, c.isDigit = true → p c) (hdot : p '.')
    (n places : Nat) :
    ∀ c ∈ (placed n places).toList, p c := by
  have hdigits :
      ∀ c ∈ List.replicate (places + 1 - (Nat.toDigits 10 n).length) '0' ++ Nat.toDigits 10 n,
        p c := by
    intro c hc
    rcases List.mem_append.1 hc with hc | hc
    · rw [List.eq_of_mem_replicate hc]
      exact hdigit '0' (by decide)
    · exact hdigit c (Text.isDigit_toDigits hc)
  intro c hc
  rw [placed, String.toList_ofList] at hc
  split at hc
  · exact hdigits c (List.mem_of_mem_take hc)
  · rcases List.mem_append.1 hc with hc | hc
    · exact hdigits c (List.mem_of_mem_take hc)
    · rcases List.mem_cons.1 hc with rfl | hc
      · exact hdot
      · exact hdigits c (List.mem_of_mem_drop hc)

/-- A number is written with digits, a point, a sign, and the letters of the two words for what is
no number. -/
theorem forall_mem_fixed {p : Char → Prop} (hdigit : ∀ c, c.isDigit = true → p c)
    (hother : ∀ c ∈ ".-nanif".toList, p c) (x : Float) (places : Nat) :
    ∀ c ∈ (fixed x places).toList, p c := by
  have hword : ∀ word : String, word.toList ⊆ ".-nanif".toList → ∀ c ∈ word.toList, p c :=
    fun word hsub c hc => hother c (hsub hc)
  have hsign : ∀ c ∈ (if isNegative x then "-" else "").toList, p c := by
    split
    · exact hword "-" (by decide)
    · exact hword "" (by decide)
  have hsigned : ∀ rest : String, (∀ c ∈ rest.toList, p c) →
      ∀ c ∈ ((if isNegative x then "-" else "") ++ rest).toList, p c := by
    intro rest hrest c hc
    rw [String.toList_append, List.mem_append] at hc
    exact hc.elim (hsign c) (hrest c)
  simp only [fixed]
  split
  · exact hword "nan" (by decide)
  · split
    · exact hsigned "inf" (hword "inf" (by decide))
    · exact hsigned _ (forall_mem_placed hdigit (hother '.' (by decide)) _ _)

theorem isLine_fixed (x : Float) (places : Nat) : IsLine (fixed x places) :=
  forall_mem_fixed (fun _ => Text.isBreak_of_isDigit) (by decide : IsLine ".-nanif") x places

end Assay.Decimal
