import Mathlib.Data.List.TakeWhile
import Assay.Annotate
import Assay.Proofs.Fallible
import Assay.Proofs.Lines

/-!
# Annotating keeps the code

The annotated file has one more line at its top, and below it the lines of the file in their order.
A line gets nothing but comments at its end, and a line between them ends with the mark of a
suggestion.
-/

namespace Assay.Annotate

open Text (IsLine ofLines)

/-! ### Comments -/

/-- The line with a comment, if it does not have it yet; neither has a break. -/
def addLabel (line label : String) : String :=
  if Text.hasWord (" // " ++ label) line then line else line ++ (" // " ++ label)

/-- The labels of the assertions at a row, in the order in which they become comments. -/
def labelsAt (k : Class) (row : Nat) : List String :=
  ((marks k).filter fun a => a.1 = (row : Int)).map Prod.snd

theorem mem_labelsAt {k : Class} {row : Nat} {label : String} :
    label ∈ labelsAt k row ↔
      ∃ m ∈ k.methods, ∃ a ∈ m.assertions, a.row = row ∧ a.label = label := by
  simp only [labelsAt, marks, List.mem_map, List.mem_filter, List.mem_mergeSort, List.mem_flatMap,
    decide_eq_true_eq]
  constructor
  · rintro ⟨_, ⟨⟨m, hm, a, ha, rfl⟩, hrow⟩, rfl⟩
    exact ⟨m, hm, a, ha, hrow, rfl⟩
  · rintro ⟨m, hm, a, ha, hrow, rfl⟩
    exact ⟨(a.row, a.label), ⟨⟨m, hm, a, ha, rfl⟩, hrow⟩, rfl⟩

theorem dropWhile_feed {line : String} (h : IsLine line) :
    line.toList.reverse.dropWhile (fun c => decide (c = '\n')) = line.toList.reverse := by
  refine List.dropWhile_eq_self_iff.2 fun hpos => ?_
  have hmem := List.mem_reverse.1 (List.getElem_mem hpos)
  have hne : line.toList.reverse[0] ≠ '\n' := fun he => absurd (h _ hmem) (by rw [he]; decide)
  simpa using hne

theorem withoutFeed_eq_self {line : String} (h : IsLine line) : withoutFeed line = line := by
  rw [withoutFeed, Text.dropEnd, dropWhile_feed h, List.reverse_reverse, String.ofList_toList]

theorem withoutFeed_line {line : String} (h : IsLine line) : withoutFeed (line ++ "\n") = line := by
  have hfeed : (line ++ "\n").toList.reverse = '\n' :: line.toList.reverse := by simp
  rw [withoutFeed, Text.dropEnd, hfeed, List.dropWhile_cons_of_pos (by decide), dropWhile_feed h,
    List.reverse_reverse, String.ofList_toList]

theorem commented_line {line : String} (h : IsLine line) (label : String) :
    commented label (line ++ "\n") = addLabel line label ++ "\n" := by
  simp only [commented, addLabel, withoutFeed_line h]
  split
  · rfl
  · simp [String.append_assoc]

theorem isLine_addLabel {line label : String} (h : IsLine line) (hlabel : IsLine label) :
    IsLine (addLabel line label) := by
  rw [addLabel]
  split
  · exact h
  · exact h.append ((show IsLine " // " by decide).append hlabel)

theorem isLine_foldl_addLabel {line : String} {labels : List String} (h : IsLine line)
    (hlabels : ∀ l ∈ labels, IsLine l) : IsLine (labels.foldl addLabel line) := by
  induction labels generalizing line with
  | nil => exact h
  | cons l labels ih =>
    exact ih (isLine_addLabel h (hlabels l (by simp))) fun x hx => hlabels x (by simp [hx])

theorem foldl_commented {line : String} {labels : List String} (h : IsLine line)
    (hlabels : ∀ l ∈ labels, IsLine l) :
    labels.foldl (fun l label => commented label l) (line ++ "\n") =
      labels.foldl addLabel line ++ "\n" := by
  induction labels generalizing line with
  | nil => rfl
  | cons l labels ih =>
    rw [List.foldl_cons, commented_line h, List.foldl_cons]
    exact ih (isLine_addLabel h (hlabels l (by simp))) fun x hx => hlabels x (by simp [hx])

/-- A comment that a line has is never taken off again. -/
theorem hasWord_foldl {word line : String} (labels : List String)
    (h : Text.hasWord word line = true) :
    Text.hasWord word (labels.foldl addLabel line) = true := by
  induction labels generalizing line with
  | nil => exact h
  | cons l labels ih =>
    refine ih ?_
    rw [addLabel]
    split
    · exact h
    · rw [Text.hasWord_iff] at h ⊢
      rw [String.toList_append]
      exact h.trans (List.prefix_append _ _).isInfix

theorem hasWord_addLabel (line label : String) :
    Text.hasWord (" // " ++ label) (addLabel line label) = true := by
  rw [addLabel]
  split
  case isTrue h => exact h
  case isFalse =>
    rw [Text.hasWord_iff]
    exact ⟨line.toList, [], by simp⟩

/-- Labels become comments at the end of the line, and each of them is there. -/
theorem foldl_addLabel (line : String) (labels : List String) :
    (∃ used, used ⊆ labels ∧
      labels.foldl addLabel line = line ++ String.join (used.map (" // " ++ ·))) ∧
      ∀ l ∈ labels, Text.hasWord (" // " ++ l) (labels.foldl addLabel line) = true := by
  induction labels generalizing line with
  | nil => exact ⟨⟨[], by simp, by simp⟩, by simp⟩
  | cons l labels ih =>
    obtain ⟨⟨used, hused, heq⟩, hall⟩ := ih (addLabel line l)
    refine ⟨?_, ?_⟩
    · by_cases hl : Text.hasWord (" // " ++ l) line = true
      · exact ⟨used, List.subset_cons_of_subset l hused,
          by rw [List.foldl_cons, heq, addLabel, if_pos hl]⟩
      · refine ⟨l :: used, List.cons_subset_cons l hused, ?_⟩
        rw [List.foldl_cons, heq, addLabel, if_neg hl]
        simp [String.append_assoc]
    · intro x hx
      rcases List.mem_cons.1 hx with rfl | hx
      · exact hasWord_foldl labels (hasWord_addLabel line x)
      · exact hall x hx

theorem getElem?_commentAt (lines : List String) (row : Int) (label : String) (i : Nat) :
    (commentAt lines row label)[i]? = if row = i then lines[i]?.map (commented label)
      else lines[i]? := by
  rw [commentAt]
  by_cases h : row < 0
  · rw [if_pos h, if_neg (by omega)]
  · rw [if_neg h, List.getElem?_modify]
    by_cases hi : row = i
    · simp [hi]
    · have hne : row.toNat ≠ i := by omega
      simp [hi, hne]

/-- Comments at other rows do not matter to a line. -/
theorem getElem?_foldl_commentAt (all : List (Int × String)) (lines : List String) (i : Nat) :
    (all.foldl (fun ls a => commentAt ls a.1 a.2) lines)[i]? =
      lines[i]?.map fun line => ((all.filter fun a => a.1 = (i : Int)).map Prod.snd).foldl
        (fun l x => commented x l) line := by
  induction all generalizing lines with
  | nil => simp
  | cons a all ih =>
    rw [List.foldl_cons, ih, getElem?_commentAt]
    by_cases h : a.1 = i
    · simp [h, Option.map_map, Function.comp_def]
    · simp [h]

/-- The lines with the comments of their assertions. -/
def commentedLines (k : Class) (lines : List String) : List String :=
  lines.mapIdx fun i line => (labelsAt k i).foldl addLabel line

section Comments

variable {k : Class} {lines : List String}

theorem isLine_of_mem_labelsAt (h : ∀ m ∈ k.methods, ∀ a ∈ m.assertions, IsLine a.label) (i : Nat) :
    ∀ l ∈ labelsAt k i, IsLine l := by
  intro l hl
  obtain ⟨m, hm, a, ha, -, rfl⟩ := mem_labelsAt.1 hl
  exact h m hm a ha

theorem addComments_ofLines (hlines : ∀ l ∈ lines, IsLine l)
    (h : ∀ m ∈ k.methods, ∀ a ∈ m.assertions, IsLine a.label) :
    addComments k (ofLines lines) = ofLines (commentedLines k lines) := by
  rw [addComments, Text.keptLines_ofLines hlines, ofLines]
  congr 1
  refine List.ext_getElem? fun i => ?_
  rw [getElem?_foldl_commentAt, List.getElem?_map, List.getElem?_map, commentedLines,
    List.getElem?_mapIdx]
  cases hi : lines[i]? with
  | none => rfl
  | some line =>
    have hline := hlines line (List.mem_of_getElem? hi)
    exact congrArg some (foldl_commented hline (isLine_of_mem_labelsAt h i))

theorem isLine_commentedLines (hlines : ∀ l ∈ lines, IsLine l)
    (h : ∀ m ∈ k.methods, ∀ a ∈ m.assertions, IsLine a.label) :
    ∀ l ∈ commentedLines k lines, IsLine l := by
  intro l hl
  obtain ⟨i, hi, rfl⟩ := List.mem_mapIdx.1 hl
  exact isLine_foldl_addLabel (hlines _ (List.getElem_mem hi)) (isLine_of_mem_labelsAt h i)

end Comments

/-- What becomes of the line at a row: comments of assertions at that row stand at its end, and each
of these assertions has its comment there. -/
structure IsCommented (k : Class) (row : Nat) (original line : String) : Prop where
  keeps : ∃ labels : List String, line = original ++ String.join (labels.map (" // " ++ ·)) ∧
    ∀ l ∈ labels, ∃ m ∈ k.methods, ∃ a ∈ m.assertions, a.row = row ∧ a.label = l
  has : ∀ m ∈ k.methods, ∀ a ∈ m.assertions, a.row = row →
    Text.hasWord (" // " ++ a.label) line = true

theorem isCommented_foldl (k : Class) (row : Nat) (line : String) :
    IsCommented k row line ((labelsAt k row).foldl addLabel line) := by
  obtain ⟨⟨used, hused, heq⟩, hall⟩ := foldl_addLabel line (labelsAt k row)
  exact ⟨⟨used, heq, fun l hl => mem_labelsAt.1 (hused hl)⟩,
    fun m hm a ha hrow => hall a.label (mem_labelsAt.2 ⟨m, hm, a, ha, hrow, rfl⟩)⟩

theorem isCommented_commentedLines {k : Class} {lines : List String} {row : Nat}
    {original line : String} (horiginal : lines[row]? = some original)
    (hline : (commentedLines k lines)[row]? = some line) :
    IsCommented k row original line := by
  rw [commentedLines, List.getElem?_mapIdx, horiginal] at hline
  obtain rfl := Option.some.inj hline
  exact isCommented_foldl k row original

/-! ### The first line -/

/-- The first line is a comment with the number in it, and has no brace besides. -/
theorem exists_header_parts (average : Float) :
    ∃ front back, header average = front ++ Decimal.fixed average 2 ++ (back ++ "\n") ∧
      "// ".toList <+: front.toList ∧ IsLine front ∧ IsLine back ∧ '\x7b' ∉ front.toList ∧
      '\x7b' ∉ back.toList := by
  rw [header]
  split
  · exact ⟨"// The file has on average ", " assertions per method. This is sufficient.", rfl,
      by decide, by decide, by decide, by decide, by decide⟩
  · have hback : " assertions per method. " ++ "This is not sufficient.\n" =
        " assertions per method. This is not sufficient." ++ "\n" := by decide
    refine ⟨"// Warning! The file has on average ",
      " assertions per method. This is not sufficient.", ?_,
      by decide, by decide, by decide, by decide, by decide⟩
    rw [← hback, ← String.append_assoc]
    rfl

theorem exists_header (average : Float) :
    ∃ head, header average = head ++ "\n" ∧ IsLine head ∧ "// ".toList <+: head.toList := by
  obtain ⟨front, back, hheader, hmark, hfront, hback, -⟩ := exists_header_parts average
  refine ⟨front ++ Decimal.fixed average 2 ++ back, by rw [hheader, ← String.append_assoc],
    (hfront.append (Decimal.isLine_fixed average 2)).append hback, ?_⟩
  rw [String.toList_append, String.toList_append, List.append_assoc]
  exact hmark.trans (List.prefix_append _ _)

/-! ### Suggestions -/

/-- The second list has the elements of the first in their order, and between them elements of
`P`. -/
inductive Extends {α : Type} (P : α → Prop) : List α → List α → Prop
  | nil : Extends P [] []
  | keep {x : α} {xs ys : List α} : Extends P xs ys → Extends P (x :: xs) (x :: ys)
  | insert {y : α} {xs ys : List α} : P y → Extends P xs ys → Extends P xs (y :: ys)

namespace Extends

variable {α : Type} {P : α → Prop} {xs ys zs new : List α}

theorem refl : ∀ xs : List α, Extends P xs xs
  | [] => .nil
  | _ :: xs => .keep (refl xs)

theorem front (hnew : ∀ x ∈ new, P x) (h : Extends P xs ys) : Extends P xs (new ++ ys) := by
  induction new with
  | nil => exact h
  | cons x new ih => exact .insert (hnew x (by simp)) (ih fun y hy => hnew y (by simp [hy]))

theorem between (hnew : ∀ x ∈ new, P x) (h : Extends P xs (ys ++ zs)) :
    Extends P xs (ys ++ new ++ zs) := by
  induction ys generalizing xs with
  | nil => exact h.front hnew
  | cons y ys ih =>
    cases h with
    | keep h => exact .keep (ih h)
    | insert hy h => exact .insert hy (ih h)

end Extends

theorem trim_subset (s : String) : (Text.trim s).toList ⊆ s.toList := by
  intro c hc
  rw [Text.trim, String.toList_ofList, Text.dropEnds, Text.dropEnd, List.mem_reverse] at hc
  have hfront := (List.dropWhile_sublist _).subset hc
  exact (List.dropWhile_sublist _).subset (List.mem_reverse.1 hfront)

/-- A line that an index gives, which may count from the end. -/
theorem lineAt_eq_ok {lines : List String} {i : Int} {line : String}
    (h : lineAt lines i = .ok line) :
    ∃ j : Nat, lines[j]? = some line ∧ (i = j ∨ i = j - lines.length) := by
  simp only [lineAt] at h
  generalize hj : (if i < 0 then i + (lines.length : Int) else i) = j at h
  by_cases hneg : j < 0
  · rw [if_pos hneg] at h
    cases h
  · rw [if_neg hneg] at h
    split at h
    next l hl =>
      obtain rfl := Except.ok.inj h
      refine ⟨_, hl, ?_⟩
      split at hj <;> omega
    · cases h

theorem exists_lineAt {lines : List String} {i : Int} (h : 0 ≤ i) (hi : i < lines.length) :
    ∃ line, lineAt lines i = .ok line := by
  have hlt : i.toNat < lines.length := by omega
  refine ⟨lines[i.toNat], ?_⟩
  simp [lineAt, Int.not_lt.2 h, List.getElem?_eq_getElem hlt]

/-- The search for a brace finds a line that has one. -/
theorem braceFrom_eq_some {lines : List String} {n : Nat} {i j : Int}
    (h : braceFrom lines n i = .ok (some j)) :
    ∃ line, lineAt lines j = .ok line ∧ '\x7b' ∈ line.toList := by
  induction n generalizing i with
  | zero => cases h
  | succ n ih =>
    obtain ⟨line, hline, h⟩ := bind_eq_ok.1 h
    dsimp only at h
    split at h
    next hbrace =>
      obtain rfl := Option.some.inj (Except.ok.inj h)
      have hmem : '\x7b' ∈ (Text.trim line).toList := by
        have hboth := Bool.and_eq_true_iff.1 hbrace
        simpa using hboth.2
      exact ⟨line, hline, trim_subset line hmem⟩
    · exact ih h

theorem braceAt_eq_some {lines : List String} {row i : Int} (h : braceAt lines row = .ok (some i)) :
    i ≠ -1 ∧ ∃ line, lineAt lines i = .ok line ∧ '\x7b' ∈ line.toList := by
  obtain ⟨found, hfound, h⟩ := bind_eq_ok.1 h
  cases found with
  | none => cases h
  | some j =>
    have hj : (if j = -1 then none else some j) = some i := Except.ok.inj h
    split at hj
    · cases hj
    next hne =>
      obtain rfl := Option.some.inj hj
      exact ⟨hne, braceFrom_eq_some hfound⟩

theorem exists_braceFrom (lines : List String) (n : Nat) {i : Int} (h : 0 ≤ i)
    (hn : n ≠ 0 → i + n ≤ lines.length) :
    ∃ found, braceFrom lines n i = .ok found := by
  induction n generalizing i with
  | zero => exact ⟨none, rfl⟩
  | succ n ih =>
    have hlt : i < lines.length := by omega
    obtain ⟨line, hline⟩ := exists_lineAt h hlt
    rw [braceFrom, hline, ok_bind]
    dsimp only
    split
    · exact ⟨some i, rfl⟩
    · exact ih (by omega) (by omega)

theorem exists_braceAt (lines : List String) {row : Int} (h : 0 ≤ row) :
    ∃ found, braceAt lines row = .ok found := by
  obtain ⟨found, hfound⟩ :=
    exists_braceFrom lines (min (row + searchedLines) lines.length - row).toNat h (by omega)
  rw [braceAt, hfound, ok_bind]
  cases found with
  | none => exact ⟨none, rfl⟩
  | some i => exact ⟨_, rfl⟩

/-- The blanks before a brace do not reach what follows it. -/
theorem indentation_append {s : String} (hs : '\x7b' ∈ s.toList) (t : String) :
    indentation (s ++ t) = indentation s := by
  have hshort : (s.toList.takeWhile Text.isBlank).length ≠ s.toList.length := by
    intro hlen
    have hall :=
      List.takeWhile_eq_self_iff.1 ((List.takeWhile_prefix Text.isBlank).eq_of_length hlen)
    exact absurd (hall _ hs) (by decide)
  rw [indentation, indentation, String.toList_append, List.takeWhile_append, if_neg hshort]

theorem indentation_line {line : String} (h : IsLine line) (hbrace : '\x7b' ∈ line.toList) :
    IsLine (indentation (line ++ "\n")) ∧ ∀ c ∈ (indentation (line ++ "\n")).toList,
      Text.isBlank c = true := by
  rw [indentation_append hbrace, indentation, IsLine, String.toList_ofList]
  exact ⟨fun c hc => h c ((List.takeWhile_sublist _).subset hc),
    fun c hc => List.mem_takeWhile_imp hc⟩

/-- A line that the suggestions for a class may add. -/
def IsSuggestion (k : Class) (line : String) : Prop :=
  IsLine line ∧ ∃ m ∈ k.methods, ∃ s ∈ m.suggested, ∃ indent : String,
    (∀ c ∈ indent.toList, Text.isBlank c = true) ∧ line = indent ++ Text.trim s ++ " // suggested"

section Suggestions

variable {k : Class} {m : Method} {head : String} {out lines : List String} {row : Int}

theorem isSuggestion_indented (hm : m ∈ k.methods) (hsuggested : ∀ s ∈ m.suggested, IsLine s)
    {front : String} (hfront : IsLine front) (hblank : ∀ c ∈ front.toList, Text.isBlank c = true) :
    ∀ l ∈ m.suggested.map (fun s => front ++ "    " ++ Text.trim s ++ " // suggested"),
      IsSuggestion k l := by
  intro l hl
  obtain ⟨s, hs, rfl⟩ := List.mem_map.1 hl
  have htrim : IsLine (Text.trim s) :=
    (hsuggested s hs).of_subset (by simpa [Text.trim] using trim_subset s)
  refine ⟨((hfront.append (by decide)).append htrim).append (by decide), m, hm, s, hs,
    front ++ "    ", ?_, rfl⟩
  intro c hc
  rw [String.toList_append, List.mem_append] at hc
  rcases hc with hc | hc
  · exact hblank c hc
  · exact List.all_eq_true.1 (by decide : "    ".toList.all Text.isBlank = true) c hc

/-- One method's suggestions stand below the first line, between the lines that were there. -/
theorem suggestAt_eq_ok (hm : m ∈ k.methods) (hsuggested : ∀ s ∈ m.suggested, IsLine s)
    (hlines : ∀ l ∈ head :: out, IsLine l)
    (h : suggestAt ((head :: out).map (· ++ "\n")) row (m.suggested.map Text.trim) = .ok lines) :
    ∃ out', lines = (head :: out').map (· ++ "\n") ∧ (∀ l ∈ out', IsLine l) ∧
      ∀ original, Extends (IsSuggestion k) original out →
        Extends (IsSuggestion k) original out' := by
  obtain ⟨found, hfound, h⟩ := bind_eq_ok.1 h
  cases found with
  | none =>
    obtain rfl := Except.ok.inj h
    exact ⟨out, rfl, fun l hl => hlines l (by simp [hl]), fun _ h => h⟩
  | some i =>
    obtain ⟨hne, line, hline, hbrace⟩ := braceAt_eq_some hfound
    obtain ⟨line', hline', h⟩ := bind_eq_ok.1 h
    obtain rfl := Except.ok.inj (hline.symm.trans hline')
    obtain rfl := Except.ok.inj h
    obtain ⟨j, hj, hi⟩ := lineAt_eq_ok hline
    obtain ⟨body, hbody, rfl⟩ : ∃ body, (head :: out)[j]? = some body ∧ body ++ "\n" = line := by
      simpa only [List.getElem?_map, Option.map_eq_some_iff] using hj
    have hbodyLine := hlines body (List.mem_of_getElem? hbody)
    have hlt : j < (head :: out).length := (List.getElem?_eq_some_iff.1 hbody).1
    obtain ⟨hindent, hblank⟩ := indentation_line hbodyLine (by simpa using hbrace)
    let new := m.suggested.map fun s =>
      indentation (body ++ "\n") ++ "    " ++ Text.trim s ++ " // suggested"
    have hnew : ∀ l ∈ new, IsSuggestion k l := isSuggestion_indented hm hsuggested hindent hblank
    -- the place is below the line with the brace, so never above the first line
    have hplace : Text.place ((head :: out).map (· ++ "\n")).length (i + 1) = j + 1 := by
      rw [List.length_map] at hi ⊢
      rw [Text.place]
      split <;> omega
    refine ⟨out.take j ++ new ++ out.drop j, ?_, ?_, ?_⟩
    · rw [hplace]
      simp [new, Function.comp_def, String.append_assoc]
    · intro l hl
      rcases List.mem_append.1 hl with hl | hl
      · rcases List.mem_append.1 hl with hl | hl
        · exact hlines l (by simp [List.mem_of_mem_take hl])
        · exact (hnew l hl).1
      · exact hlines l (by simp [List.mem_of_mem_drop hl])
    · intro original horiginal
      rw [← List.take_append_drop j out] at horiginal
      exact horiginal.between hnew

theorem exists_suggestAt (h : 0 ≤ row) (lines suggestions : List String) :
    ∃ lines', suggestAt lines row suggestions = .ok lines' := by
  obtain ⟨found, hfound⟩ := exists_braceAt lines h
  rw [suggestAt, hfound, ok_bind]
  cases found with
  | none => exact ⟨lines, rfl⟩
  | some i =>
    obtain ⟨-, line, hline, -⟩ := braceAt_eq_some hfound
    dsimp only
    rw [hline, ok_bind]
    exact ⟨_, rfl⟩

end Suggestions

theorem mem_suggestions {k : Class} {e : Int × List String} :
    e ∈ suggestions k ↔ ∃ m ∈ k.methods, m.suggested ≠ [] ∧
    e = (m.node.row, m.suggested.map Text.trim) := by
  rw [suggestions, List.mem_mergeSort, List.mem_filter, List.mem_map]
  constructor
  · rintro ⟨⟨m, hm, rfl⟩, hne⟩
    exact ⟨m, hm, by simpa using hne, rfl⟩
  · rintro ⟨m, hm, hne, rfl⟩
    exact ⟨⟨m, hm, rfl⟩, by simpa using hne⟩

/-- All suggestions stand below the first line, between the lines that were there. -/
theorem foldlM_suggestAt {k : Class} {head : String} {all : List (Int × List String)}
    (hall : ∀ e ∈ all, ∃ m ∈ k.methods, e = (m.node.row, m.suggested.map Text.trim))
    (hsuggested : ∀ m ∈ k.methods, ∀ s ∈ m.suggested, IsLine s) {out lines : List String}
    (hlines : ∀ l ∈ head :: out, IsLine l)
    (h : all.foldlM (fun ls e => suggestAt ls e.1 e.2) ((head :: out).map (· ++ "\n")) =
      .ok lines) :
    ∃ out', lines = (head :: out').map (· ++ "\n") ∧
      ∀ original, Extends (IsSuggestion k) original out →
        Extends (IsSuggestion k) original out' := by
  induction all generalizing out with
  | nil =>
    obtain rfl := Except.ok.inj h
    exact ⟨out, rfl, fun _ h => h⟩
  | cons e all ih =>
    obtain ⟨m, hm, rfl⟩ := hall e (by simp)
    rw [List.foldlM_cons] at h
    obtain ⟨next, hnext, h⟩ := bind_eq_ok.1 h
    obtain ⟨out', rfl, hout', hext⟩ := suggestAt_eq_ok hm (hsuggested m hm) hlines hnext
    have hlines' : ∀ l ∈ head :: out', IsLine l :=
      List.forall_mem_cons.2 ⟨hlines head (by simp), hout'⟩
    obtain ⟨out'', rfl, hext'⟩ := ih (fun e he => hall e (by simp [he])) hlines' h
    exact ⟨out'', rfl, fun original ho => hext' original (hext original ho)⟩

theorem exists_foldlM_suggestAt {all : List (Int × List String)} (h : ∀ e ∈ all, 0 ≤ e.1)
    (lines : List String) :
    ∃ lines', all.foldlM (fun ls e => suggestAt ls e.1 e.2) lines = .ok lines' := by
  induction all generalizing lines with
  | nil => exact ⟨lines, rfl⟩
  | cons e all ih =>
    obtain ⟨next, hnext⟩ := exists_suggestAt (h e (by simp)) lines e.2
    rw [List.foldlM_cons, hnext, ok_bind]
    exact ih (fun e he => h e (by simp [he])) next

/-! ### The file -/

section File

variable {k : Class} {files : Files} {text : String} {average : Float}

/-- The files after the comments and the first line. -/
def commentedFiles (k : Class) (files : Files) (text : String) (average : Float) : Files :=
  Fuzz.insertAt (fileName k) (header average ++ addComments k text)
    (Fuzz.insertAt (fileName k) (addComments k text) files)

theorem addCommentsToFile_eq (hfile : files.lookup (fileName k) = some text)
    (haverage : k.average = some average) :
    addCommentsToFile k files = (commentedFiles k files text average, .ok ()) := by
  simp [addCommentsToFile, commentedFiles, hfile, haverage, Fuzz.lookup_insertAt]

theorem lookup_commentedFiles :
    (commentedFiles k files text average).lookup (fileName k) =
      some (header average ++ addComments k text) := by
  simp [commentedFiles, Fuzz.lookup_insertAt]

theorem annotateFile_of_ok (hfile : files.lookup (fileName k) = some text)
    (haverage : k.average = some average) {t : String}
    (h : addSuggestions k (header average ++ addComments k text) = .ok t) :
    annotateFile k files =
      (Fuzz.insertAt (fileName k) t (commentedFiles k files text average), .ok ()) := by
  simp only [annotateFile, addCommentsToFile_eq hfile haverage, addSuggestionsToFile,
    lookup_commentedFiles, h]

/-- If the suggestions fail, the comments stay. -/
theorem annotateFile_of_error (hfile : files.lookup (fileName k) = some text)
    (haverage : k.average = some average) {f : Fault}
    (h : addSuggestions k (header average ++ addComments k text) = .error f) :
    annotateFile k files = (commentedFiles k files text average, .error f) := by
  simp only [annotateFile, addCommentsToFile_eq hfile haverage, addSuggestionsToFile,
    lookup_commentedFiles, h]

theorem lookup_annotateFile_of_ne (hfile : files.lookup (fileName k) = some text)
    (haverage : k.average = some average) {name : String} (hname : name ≠ fileName k) :
    (annotateFile k files).1.lookup name = files.lookup name := by
  have hbeq : (name == fileName k) = false := beq_false_of_ne hname
  cases h : addSuggestions k (header average ++ addComments k text) with
  | ok t => simp [annotateFile_of_ok hfile haverage h, commentedFiles, Fuzz.lookup_insertAt, hbeq]
  | error f =>
    simp [annotateFile_of_error hfile haverage h, commentedFiles, Fuzz.lookup_insertAt, hbeq]

theorem exists_addSuggestions (h : ∀ m ∈ k.methods, 0 ≤ m.node.row) (text : String) :
    ∃ t, addSuggestions k text = .ok t := by
  have hall : ∀ e ∈ suggestions k, 0 ≤ e.1 := by
    intro e he
    obtain ⟨m, hm, -, rfl⟩ := mem_suggestions.1 he
    exact h m hm
  obtain ⟨lines, hlines⟩ := exists_foldlM_suggestAt hall (Text.keptLines text)
  rw [addSuggestions, hlines, ok_bind]
  exact ⟨_, rfl⟩

/-- Suggestions leave a text of lines a text of lines. -/
theorem addSuggestions_ofLines {head t : String} {lines : List String}
    (hlines : ∀ l ∈ head :: lines, IsLine l)
    (hsuggested : ∀ m ∈ k.methods, ∀ s ∈ m.suggested, IsLine s)
    (h : addSuggestions k (ofLines (head :: lines)) = .ok t) :
    ∃ out, t = ofLines (head :: out) ∧ Extends (IsSuggestion k) lines out := by
  obtain ⟨joined, hok, ht⟩ := bind_eq_ok.1 h
  rw [Text.keptLines_ofLines hlines] at hok
  have hall : ∀ e ∈ suggestions k, ∃ m ∈ k.methods,
      e = (m.node.row, m.suggested.map Text.trim) := by
    intro e he
    obtain ⟨m, hm, -, heq⟩ := mem_suggestions.1 he
    exact ⟨m, hm, heq⟩
  obtain ⟨out, rfl, hext⟩ := foldlM_suggestAt hall hsuggested hlines hok
  exact ⟨out, (Except.ok.inj ht).symm, hext lines (.refl lines)⟩

end File

/-- Annotating a file adds a first line, comments at the ends of lines and lines of suggestions, and
changes nothing else of it and nothing of other files. -/
theorem annotateFile_keeps_code (k : Class) (files : Files) (text : String) (average : Float)
    (hfile : files.lookup (fileName k) = some text)
    (hbreak : ∀ c ∈ text.toList, Text.isBreak c = true → c = '\n')
    (hlast : text.toList.getLast? = some '\n') (haverage : k.average = some average)
    (hlabel : ∀ m ∈ k.methods, ∀ a ∈ m.assertions, IsLine a.label)
    (hsuggested : ∀ m ∈ k.methods, ∀ s ∈ m.suggested, IsLine s) :
    ((∀ m ∈ k.methods, 0 ≤ m.node.row) → (annotateFile k files).2 = .ok ()) ∧
      (∀ name ≠ fileName k, (annotateFile k files).1.lookup name = files.lookup name) ∧
      ofLines (Text.lines text) = text ∧
      ∃ (head : String) (commented out : List String),
        (annotateFile k files).1.lookup (fileName k) = some (ofLines (head :: out)) ∧
        IsLine head ∧ "// ".toList <+: head.toList ∧
        Extends (IsSuggestion k) commented out ∧
        commented.length = (Text.lines text).length ∧
        ∀ (row : Nat) (original line : String), (Text.lines text)[row]? = some original →
          commented[row]? = some line → IsCommented k row original line := by
  obtain ⟨htext, hlines⟩ := Text.ofLines_lines hbreak hlast
  obtain ⟨head, hhead, hheadLine, hmark⟩ := exists_header average
  have hcommented : header average ++ addComments k text =
      ofLines (head :: commentedLines k (Text.lines text)) := by
    conv_lhs => rw [← htext]
    rw [addComments_ofLines hlines hlabel, hhead, Text.ofLines_cons, String.append_assoc]
  have hcommentedLine : ∀ l ∈ head :: commentedLines k (Text.lines text), IsLine l :=
    List.forall_mem_cons.2 ⟨hheadLine, isLine_commentedLines hlines hlabel⟩
  refine ⟨?_, fun name hname => lookup_annotateFile_of_ne hfile haverage hname, htext, head,
    commentedLines k (Text.lines text), ?_⟩
  · intro hpos
    obtain ⟨t, ht⟩ := exists_addSuggestions hpos (header average ++ addComments k text)
    rw [annotateFile_of_ok hfile haverage ht]
  · cases h : addSuggestions k (header average ++ addComments k text) with
    | error f =>
      refine ⟨commentedLines k (Text.lines text), ?_, hheadLine, hmark, .refl _, List.length_mapIdx,
        fun _ _ _ => isCommented_commentedLines⟩
      rw [annotateFile_of_error hfile haverage h, lookup_commentedFiles, hcommented]
    | ok t =>
      rw [hcommented] at h
      obtain ⟨out, rfl, hext⟩ := addSuggestions_ofLines hcommentedLine hsuggested h
      refine ⟨out, ?_, hheadLine, hmark, hext, List.length_mapIdx,
        fun _ _ _ => isCommented_commentedLines⟩
      rw [← hcommented] at h
      rw [annotateFile_of_ok hfile haverage h]
      simp [Fuzz.lookup_insertAt]

/-- Two assertions on one line, where the label of the first begins with that of the second, and one
on the line above them; the method fails for 0. -/
def halfClass : Class where
  name := "Half"
  source := ⟨"", .empty⟩
  average := some 3
  methods := [{
    name := "half", id := none, node := { Node.empty with row := 1 }, params := [], locals := []
    assertions :=
      [⟨.empty, 2, 2, "tautology"⟩, ⟨.empty, 3, 3, "useless here"⟩, ⟨.empty, 3, 3, "useless"⟩]
    changesState := false, wrong := [⟨"n", "int", .int 0, true⟩] }]

def halfText : String :=
  "class Half \x7b\n  int half(int n) \x7b\n    assert n == n;\n    assert n > 1; " ++
    "assert n > 0;\n    return n / 2;\n  \x7d\n\x7d\n"

theorem annotateFile_keeps_half :
    (annotateFile halfClass [("Half.java", halfText)]).2 = .ok () ∧
      ∃ (head : String) (commented out : List String),
        (annotateFile halfClass [("Half.java", halfText)]).1.lookup "Half.java" =
          some (ofLines (head :: out)) ∧
        IsLine head ∧ Extends (IsSuggestion halfClass) commented out ∧ commented.length = 7 ∧
        ∀ line, commented[3]? = some line →
          IsCommented halfClass 3 "    assert n > 1; assert n > 0;" line := by
  have hlines :
      Text.lines halfText = ["class Half \x7b", "  int half(int n) \x7b", "    assert n == n;",
      "    assert n > 1; assert n > 0;", "    return n / 2;", "  \x7d", "\x7d"] := by decide
  have hbreak : halfText.toList.all (fun c => decide (Text.isBreak c = true → c = '\n')) = true :=
    by decide
  obtain ⟨hok, -, -, head, commented, out, hout, hhead, -, hext, hlength, hrows⟩ :=
    annotateFile_keeps_code halfClass [("Half.java", halfText)] halfText 3 rfl
      (fun c hc => of_decide_eq_true (List.all_eq_true.1 hbreak c hc)) (by decide) rfl
        (by decide) (by decide)
  rw [hlines] at hlength hrows
  exact ⟨hok (by decide), head, commented, out, hout, hhead, hext, hlength,
    fun line => hrows 3 _ line rfl⟩

end Assay.Annotate
