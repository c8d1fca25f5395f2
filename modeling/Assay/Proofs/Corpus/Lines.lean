import Assay.Proofs.Corpus.Terms

/-!
# Reading the lines of branches

A line that writes a branch is read back: its status, and texts that write its comparisons.
-/

namespace Assay.Corpus

section Pieces

variable {r : Rank} {s : List Char} {q : Quantity}

theorem mem_gap {c : Char} {n : Nat} (h : c ∈ gap n) : c = ' ' := List.eq_of_mem_replicate h

/-- The text has none of the marks around conditions in it. -/
def IsPlain (s : List Char) : Prop := ∀ c ∈ s, c ∉ [',', ']', '\n']

theorem isPlain_gap (n : Nat) : IsPlain (gap n) := by
  intro c hc
  rw [mem_gap hc]
  decide

theorem isPlain_append {s t : List Char} : IsPlain (s ++ t) ↔ IsPlain s ∧ IsPlain t :=
  List.forall_mem_append

theorem isPlain_cons {c : Char} {s : List Char} :
    IsPlain (c :: s) ↔ c ∉ [',', ']', '\n'] ∧ IsPlain s :=
  List.forall_mem_cons

theorem Written.isPlain (h : Written r s q) : IsPlain s := by
  induction h with
  | numeral n =>
    intro c hc
    exact forall_isDigit (P := fun c => c ∉ [',', ']', '\n']) (by decide) (Text.isDigit_toDigits hc)
  | @param i h =>
    intro c hc
    obtain rfl : c = letter i := by simpa [toList_parameterName] using hc
    have hsub : [',', ']', '\n'] ⊆
        [' ', '\t', '\x0c', '#', '.', '\'', '"', ',', ']', '\n', '*', '=', '<', '>'] := by
      decide
    exact fun hmem => (isLetter_letter h).plain (hsub hmem)
  | paren m n h ih =>
    simp only [isPlain_cons, isPlain_append]
    exact ⟨by decide, isPlain_gap m, ih, isPlain_gap n, by decide, nofun⟩
  | neg n h ih =>
    simp only [isPlain_cons, isPlain_append]
    exact ⟨by decide, isPlain_gap n, ih⟩
  | factor h ih => exact ih
  | product h ih => exact ih
  | sum h ih => exact ih
  | join sign m n hp hq ihp ihq =>
    have hsign : sign.char ∉ [',', ']', '\n'] := by cases sign <;> decide
    simp only [isPlain_cons, isPlain_append]
    exact ⟨ihp, isPlain_gap m, hsign, isPlain_gap n, ihq⟩

/-- A written quantity ends with a digit, a letter or a parenthesis. -/
theorem Written.last (h : Written r s q) : ∃ s' c, s = s' ++ [c] ∧ Text.isBlank c = false := by
  induction h with
  | numeral n =>
    have hne := Nat.toDigits_ne_nil (n := n) (b := 10)
    have hdigit := Text.isDigit_toDigits (List.getLast_mem hne)
    exact ⟨_, _, (List.dropLast_concat_getLast hne).symm, Text.isBlank_of_isDigit hdigit⟩
  | @param i h => exact ⟨[], letter i, toList_parameterName i, (isLetter_letter h).notBlank⟩
  | @paren s q m n h => exact ⟨'(' :: (gap m ++ (s ++ gap n)), ')', by simp, by decide⟩
  | @neg s q n h ih =>
    obtain ⟨s', c, rfl, hc⟩ := ih
    exact ⟨'-' :: (gap n ++ s'), c, by simp, hc⟩
  | factor h ih => exact ih
  | product h ih => exact ih
  | sum h ih => exact ih
  | @join s t p q sign m n hp hq ihp ihq =>
    obtain ⟨t', c, rfl, hc⟩ := ihq
    exact ⟨s ++ (gap m ++ sign.char :: (gap n ++ t')), c, by simp, hc⟩

theorem Written.notBlank (h : Written r s q) : ∃ c s', s = c :: s' ∧ Text.isBlank c = false := by
  obtain ⟨c, s', hs, hc⟩ := h.head
  refine ⟨c, s', hs, ?_⟩
  rcases hc with hc | hc | rfl | rfl
  · exact Text.isBlank_of_isDigit hc
  · exact hc.notBlank
  · decide
  · decide

theorem dropWhile_gap (n : Nat) (c : Char) (hc : Text.isBlank c = false) (s : List Char) :
    (gap n ++ c :: s).dropWhile Text.isBlank = c :: s := by
  rw [List.dropWhile_append_of_pos fun d hd => by rw [mem_gap hd]; decide,
    List.dropWhile_cons_of_neg (by simp [hc])]

namespace Comparison

variable {c : Comparison}

theorem IsText.isPlain (h : c.IsText s) : IsPlain s := by
  obtain ⟨l, r, m, n, hl, hr, rfl⟩ := h
  have hall : c.relation.text.toList.all (fun d => d ∉ [',', ']', '\n']) = true := by
    cases c.relation <;> decide
  have hrelation : IsPlain c.relation.text.toList :=
    fun d hd => of_decide_eq_true (List.all_eq_true.1 hall d hd)
  simp only [isPlain_append]
  exact ⟨hl.isPlain, isPlain_gap m, hrelation, isPlain_gap n, hr.isPlain⟩

theorem IsText.head (h : c.IsText s) : ∃ d s', s = d :: s' ∧ Text.isBlank d = false := by
  obtain ⟨l, r, m, n, hl, -, rfl⟩ := h
  obtain ⟨d, l', rfl, hd⟩ := hl.notBlank
  exact ⟨d, _, rfl, hd⟩

theorem IsText.last (h : c.IsText s) : ∃ s' d, s = s' ++ [d] ∧ Text.isBlank d = false := by
  obtain ⟨l, r, m, n, -, hr, rfl⟩ := h
  obtain ⟨r', d, rfl, hd⟩ := hr.last
  exact ⟨l ++ (gap m ++ (c.relation.text.toList ++ (gap n ++ r'))), d, by simp, hd⟩

theorem IsText.trim_eq (h : c.IsText s) (m n : Nat) :
    Text.trim (String.ofList (gap m ++ (s ++ gap n))) = String.ofList s := by
  have hfront : (gap m ++ (s ++ gap n)).dropWhile Text.isBlank = s ++ gap n := by
    obtain ⟨d, s', rfl, hd⟩ := h.head
    exact dropWhile_gap m d hd _
  have hback : (s ++ gap n).reverse.dropWhile Text.isBlank = s.reverse := by
    obtain ⟨s', d, rfl, hd⟩ := h.last
    have hreverse : (s' ++ [d] ++ gap n).reverse = gap n ++ d :: s'.reverse := by simp [gap]
    rw [hreverse, dropWhile_gap n d hd]
    simp
  rw [Text.trim, String.toList_ofList, Text.dropEnds, hfront, Text.dropEnd, hback,
    List.reverse_reverse]

theorem IsPiece.isPlain {piece : List Char} (h : IsPiece piece c) : IsPlain piece := by
  obtain ⟨m, s, n, hs, rfl⟩ := h
  simp only [isPlain_append]
  exact ⟨isPlain_gap m, hs.isPlain, isPlain_gap n⟩

theorem IsPiece.not_blank {piece : List Char} (h : IsPiece piece c) :
    ∃ d ∈ piece, Text.isBlank d = false := by
  obtain ⟨m, s, n, hs, rfl⟩ := h
  obtain ⟨d, s', rfl, hd⟩ := hs.head
  exact ⟨d, by simp, hd⟩

end Comparison

variable {pieces : List (List Char)} {cs : List Comparison}

theorem isPlain_of_mem (h : List.Forall₂ Comparison.IsPiece pieces cs) :
    ∀ piece ∈ pieces, IsPlain piece := by
  induction h with
  | nil => simp
  | cons hpiece _ ih => simpa using ⟨hpiece.isPlain, ih⟩

/-- The texts between the commas, without the blanks around them. -/
theorem areTexts_pieces (h : List.Forall₂ Comparison.IsPiece pieces cs) :
    AreTexts (pieces.map fun piece => Text.trim (String.ofList piece)) cs := by
  induction h with
  | nil => exact .nil
  | cons hpiece _ ih =>
    obtain ⟨m, s, n, hs, rfl⟩ := hpiece
    have htrim : Text.trim (String.ofList (gap m ++ (s ++ gap n))) = String.ofList s :=
      hs.trim_eq m n
    refine .cons ?_ ih
    simpa only [htrim, String.toList_ofList] using hs

theorem areTexts_splitConditions (h : List.Forall₂ Comparison.IsPiece pieces cs) :
    AreTexts (splitConditions ([','].intercalate pieces)) cs := by
  have htexts := areTexts_pieces h
  have hplain := isPlain_of_mem h
  cases h with
  | nil => exact .nil
  | @cons piece c pieces cs hpiece hpieces =>
    have hcomma : ∀ p ∈ piece :: pieces, ',' ∉ p :=
      fun p hp hmem => hplain p hp ',' hmem (by decide)
    have hsome : ¬ ([','].intercalate (piece :: pieces)).all Text.isBlank = true := by
      obtain ⟨d, hd, hblank⟩ := hpiece.not_blank
      have hmem : d ∈ [','].intercalate (piece :: pieces) := by
        cases pieces with
        | nil => simpa using hd
        | cons p ps => simp [List.intercalate_cons_cons, hd]
      intro hall
      rw [List.all_eq_true.1 hall d hmem] at hblank
      cases hblank
    rw [splitConditions, if_neg hsome, Text.cutAt_intercalate hcomma]
    exact htexts

theorem mem_intercalate {sep x : Char} (h : x ∈ [sep].intercalate pieces) :
    x = sep ∨ ∃ piece ∈ pieces, x ∈ piece := by
  induction pieces with
  | nil => simp at h
  | cons piece pieces ih =>
    cases pieces with
    | nil => exact .inr ⟨piece, by simp, by simpa using h⟩
    | cons next pieces =>
      rw [List.intercalate_cons_cons, List.mem_append, List.mem_append, List.mem_singleton] at h
      rcases h with (h | h) | h
      · exact .inr ⟨piece, by simp, h⟩
      · exact .inl h
      · exact (ih h).imp_right fun ⟨p, hp, hx⟩ => ⟨p, List.mem_cons_of_mem _ hp, hx⟩

/-- The conditions stand on one line and do not close their list. -/
theorem inside_intercalate (h : List.Forall₂ Comparison.IsPiece pieces cs) :
    ∀ c ∈ [','].intercalate pieces, c ≠ ']' ∧ c ≠ '\n' := by
  have hplain := isPlain_of_mem h
  intro c hc
  rcases mem_intercalate hc with rfl | ⟨piece, hpiece, hc⟩
  · decide
  · have hne := hplain piece hpiece c hc
    simp only [List.mem_cons, not_or] at hne
    exact ⟨hne.2.1, hne.2.2.1⟩

end Pieces

section Lines

variable {cs word : List Char}

/-- The numbers of the blanks. -/
def blanks : List Nat :=
  List.range' 9 5 ++ List.range' 28 5 ++ List.range' 0x2000 11 ++
    [0x85, 0xa0, 0x1680, 0x2028, 0x2029, 0x202f, 0x205f, 0x3000]

theorem isBlank_of_isWord {c : Char} (h : Text.isWord c = true) : Text.isBlank c = false := by
  have hall : ∀ n ∈ blanks, Text.isWord (Char.ofNat n) = false := by decide +kernel
  rw [← Bool.not_eq_true]
  intro hblank
  have hmem : c.toNat ∈ blanks := by
    simp only [Text.isBlank, Bool.or_eq_true, Bool.and_eq_true, decide_eq_true_eq,
      beq_iff_eq] at hblank
    simp only [blanks, List.mem_append, List.mem_range'_1, List.mem_cons, List.not_mem_nil]
    omega
  have hword := hall c.toNat hmem
  rw [Char.ofNat_toNat, h] at hword
  cases hword

theorem status?_word (hne : word ≠ []) (h : ∀ c ∈ word, Text.isWord c = true) :
    status? ("], Status: ".toList ++ word) = some word := by
  have hbracket : Text.after? "],".toList ("], Status: ".toList ++ word) =
      some (" Status: ".toList ++ word) :=
    Text.after?_eq_some_iff.2 rfl
  have hstatus : Text.after? "Status:".toList (skipBlanks (" Status: ".toList ++ word)) =
      some (' ' :: word) :=
    Text.after?_eq_some_iff.2 rfl
  have hskip : skipBlanks (' ' :: word) = word := by
    obtain ⟨c, word', rfl⟩ := List.exists_cons_of_ne_nil hne
    exact dropWhile_gap 1 c (isBlank_of_isWord (h c (by simp))) word'
  have htake : word.takeWhile Text.isWord = word := List.takeWhile_eq_self_iff.2 h
  have hguard : (guard (word ≠ []) : Option Unit) = some () := if_pos hne
  rw [status?, hbracket, Option.bind_eq_bind, Option.bind_some, hstatus, Option.bind_eq_bind,
    Option.bind_some, hskip, htake]
  exact congrArg (fun g => g.bind fun _ => some word) hguard

theorem status?_cons {c : Char} (hc : c ≠ ']') (cs : List Char) : status? (c :: cs) = none := by
  have hafter : Text.after? "],".toList (c :: cs) = none := by simp [Text.after?, Ne.symm hc]
  rw [status?, hafter]
  rfl

theorem upToStatus?_of_status? (h : status? cs = some word) : upToStatus? cs = some ([], word) := by
  cases cs with
  | nil =>
    have hnone : status? [] = none := rfl
    rw [hnone] at h
    cases h
  | cons c cs => simp [upToStatus?, h]

/-- The conditions go on until the status. -/
theorem upToStatus?_append (hcs : ∀ c ∈ cs, c ≠ ']' ∧ c ≠ '\n') (hne : word ≠ [])
    (h : ∀ c ∈ word, Text.isWord c = true) :
    upToStatus? (cs ++ ("], Status: ".toList ++ word)) = some (cs, word) := by
  induction cs with
  | nil => exact upToStatus?_of_status? (status?_word hne h)
  | cons c cs ih =>
    obtain ⟨⟨hbracket, hline⟩, hcs⟩ := List.forall_mem_cons.1 hcs
    rw [List.cons_append, upToStatus?, status?_cons hbracket, ih hcs]
    simp [hline]

theorem branchIn?_of_branchHere? {r : List Char × List Char} (h : branchHere? cs = some r) :
    branchIn? cs = some r := by
  cases cs with
  | nil => simp [branchHere?, Text.after?] at h
  | cons c cs => simp [branchIn?, h]

theorem branchIn?_append (hcs : ∀ c ∈ cs, c ≠ ']' ∧ c ≠ '\n') (hne : word ≠ [])
    (h : ∀ c ∈ word, Text.isWord c = true) :
    branchIn? ("Branch: [".toList ++ (cs ++ ("], Status: ".toList ++ word))) = some (cs, word) := by
  have hafter : ∀ rest, Text.after? "Branch:".toList ("Branch: [".toList ++ rest) =
      some (' ' :: '[' :: rest) :=
    fun rest => Text.after?_eq_some_iff.2 rfl
  have hskip : ∀ rest, skipBlanks (' ' :: '[' :: rest) = '[' :: rest :=
    fun rest => dropWhile_gap 1 '[' (by decide) rest
  refine branchIn?_of_branchHere? ?_
  simp only [branchHere?, hafter, hskip, Option.bind_eq_bind, Option.bind_some]
  exact upToStatus?_append hcs hne h

/-- What is read from the line of a branch. -/
structure Reads (line : BranchLine) (b : Branch) : Prop where
  texts : AreTexts line.conditions b.conditions
  status : line.status = b.status

/-- The lines of branches are read one by one. -/
theorem reads_parseBranches {lines : List String} {branches : List Branch}
    (h : List.Forall₂ Branch.IsLine lines branches) :
    List.Forall₂ Reads (parseBranches lines) branches := by
  induction h with
  | nil => exact .nil
  | @cons line b lines branches hline _ ih =>
    obtain ⟨pieces, hpieces, htext⟩ := hline.text
    have hbranch := branchIn?_append (inside_intercalate hpieces) hline.status.1 hline.status.2
    rw [← htext] at hbranch
    have hparse : parseBranches (line :: lines) =
        ⟨splitConditions ([','].intercalate pieces), b.status⟩ :: parseBranches lines := by
      simp [parseBranches, hbranch]
    rw [hparse]
    exact .cons ⟨areTexts_splitConditions hpieces, rfl⟩ ih

end Lines

end Assay.Corpus
