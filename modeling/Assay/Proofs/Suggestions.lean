import Assay.Proofs.Annotate

/-!
# Where suggestions land

The rows of methods are rows of the file as it was, but when the suggestions are added a first line
has moved every line down by one. So the search for the brace of a method begins with the line above
the method: if that line opens a block, the suggestions land there, and only else after the line
that opens the method. Suggestions that were added before stay out of the way, because methods are
taken from the last to the first and lines are only added after a line that opens a block.
-/

namespace Assay.Annotate

open Text (IsLine AreCut)

/-! ### Lines that open a block -/

/-- The line has an opening brace and is not an annotation. -/
def opens (line : String) : Bool :=
  !(Text.trim line).startsWith "@" && (Text.trim line).toList.contains '\x7b'

theorem mem_dropWhile {p : Char → Bool} {c : Char} (hc : p c = false) (cs : List Char) :
    c ∈ cs.dropWhile p ↔ c ∈ cs := by
  refine ⟨fun h => (List.dropWhile_sublist p).subset h, fun h => ?_⟩
  rw [← List.takeWhile_append_dropWhile (p := p) (l := cs), List.mem_append] at h
  refine h.resolve_left fun hfront => ?_
  exact absurd (List.mem_takeWhile_imp hfront) (by simp [hc])

theorem mem_trim {c : Char} (hc : Text.isBlank c = false) (s : String) :
    c ∈ (Text.trim s).toList ↔ c ∈ s.toList := by
  rw [Text.trim, String.toList_ofList, Text.dropEnds, Text.dropEnd, List.mem_reverse,
    mem_dropWhile hc, List.mem_reverse, mem_dropWhile hc]

/-- A text that begins with no blank begins with the same character when it is trimmed. -/
theorem head?_trim (s : String) :
    (Text.trim s).toList.head? = (s.toList.dropWhile Text.isBlank).head? := by
  rw [Text.trim, String.toList_ofList, Text.dropEnds, Text.dropEnd]
  cases hd : s.toList.dropWhile Text.isBlank with
  | nil => rfl
  | cons c cs =>
    have hc : Text.isBlank c = false := by
      have hhead := List.head?_dropWhile_not Text.isBlank s.toList
      simpa [hd] using hhead
    rw [List.reverse_cons, List.dropWhile_append]
    split
    · simp [hc]
    · simp

theorem opens_iff {line : String} :
    opens line = true ↔
      '\x7b' ∈ line.toList ∧ (line.toList.dropWhile Text.isBlank).head? ≠ some '@' := by
  have hat : (Text.trim line).startsWith "@" = true ↔ (Text.trim line).toList.head? = some '@' := by
    cases h : (Text.trim line).toList with
    | nil => simp [h]
    | cons c cs => simpa [h] using (eq_comm : '@' = c ↔ c = '@')
  rw [opens, Bool.and_eq_true, Bool.not_eq_true', ← Bool.not_eq_true, hat, head?_trim,
    List.contains_iff_mem, mem_trim (by decide), and_comm]

theorem opens_eq (line : String) :
    opens line =
      decide ('\x7b' ∈ line.toList ∧ (line.toList.dropWhile Text.isBlank).head? ≠ some '@') := by
  rw [Bool.eq_iff_iff, opens_iff, decide_eq_true_iff]

/-- What stands after the brace of a line does not matter. -/
theorem opens_append {s t : String} (ht : '\x7b' ∉ t.toList) : opens (s ++ t) = opens s := by
  rw [Bool.eq_iff_iff, opens_iff, opens_iff, String.toList_append, List.mem_append, or_iff_left ht]
  refine and_congr_right fun hs => ?_
  have hne : s.toList.dropWhile Text.isBlank ≠ [] :=
    List.ne_nil_of_mem ((mem_dropWhile (by decide) _).2 hs)
  rw [List.dropWhile_append, if_neg (by simpa using hne), List.head?_append_of_ne_nil _ hne]

section Labels

variable {label : String} (hlabel : '\x7b' ∉ label.toList) (line : String)

include hlabel

/-- A comment changes nothing of a line up to its last brace. -/
theorem exists_commented :
    ∃ body rest rest' : String, line = body ++ rest ∧ commented label line = body ++ rest' ∧
    '\x7b' ∉ rest.toList ∧ '\x7b' ∉ rest'.toList := by
  let feeds := String.ofList (line.toList.reverse.takeWhile (· = '\n')).reverse
  have hline : line = withoutFeed line ++ feeds := by
    rw [withoutFeed, Text.dropEnd, ← String.ofList_append, ← List.reverse_append,
      List.takeWhile_append_dropWhile, List.reverse_reverse, String.ofList_toList]
  have hfeeds : '\x7b' ∉ feeds.toList := by
    intro hmem
    have hfeed := List.mem_takeWhile_imp (List.mem_reverse.1 (by simpa [feeds] using hmem))
    exact absurd hfeed (by decide)
  by_cases hword : Text.hasWord (" // " ++ label) (withoutFeed line) = true
  · exact ⟨withoutFeed line, feeds, feeds, hline, by simp only [commented, hword, if_true, ← hline],
      hfeeds, hfeeds⟩
  · refine ⟨withoutFeed line, feeds, " // " ++ label ++ "\n", hline, ?_, hfeeds, by simp [hlabel]⟩
    simp only [commented, if_neg hword, String.append_assoc]

theorem opens_commented : opens (commented label line) = opens line := by
  obtain ⟨body, rest, rest', hline, hcommented, hrest, hrest'⟩ := exists_commented hlabel line
  rw [hcommented, hline, opens_append hrest, opens_append hrest']

variable {line} in
theorem indentation_commented (h : opens line = true) :
    indentation (commented label line) = indentation line := by
  obtain ⟨body, rest, rest', hline, hcommented, hrest, -⟩ := exists_commented hlabel line
  have hbody : '\x7b' ∈ body.toList := by
    have hmem := (opens_iff.1 h).1
    rw [hline, String.toList_append, List.mem_append] at hmem
    exact hmem.resolve_right hrest
  rw [hcommented, hline, indentation_append hbody, indentation_append hbody]

end Labels

theorem opens_foldl_commented {labels : List String} (h : ∀ l ∈ labels, '\x7b' ∉ l.toList)
    (line : String) :
    opens (labels.foldl (fun l label => commented label l) line) = opens line ∧
      (opens line = true →
        indentation (labels.foldl (fun l label => commented label l) line) = indentation line) := by
  induction labels generalizing line with
  | nil => simp
  | cons l labels ih =>
    obtain ⟨hl, hrest⟩ := List.forall_mem_cons.1 h
    obtain ⟨hopens, hindent⟩ := ih hrest (commented l line)
    rw [opens_commented hl line] at hopens hindent
    rw [List.foldl_cons]
    exact ⟨hopens, fun ho => (hindent ho).trans (indentation_commented hl ho)⟩

/-! ### The search for a brace -/

/-- There is a line at the row, and it opens a block. -/
def opensAt (lines : List String) (row : Nat) : Bool := lines[row]?.any opens

theorem opensAt_eq (lines : List String) (row : Nat) :
    opensAt lines row = lines[row]?.any fun line =>
      decide ('\x7b' ∈ line.toList ∧ (line.toList.dropWhile Text.isBlank).head? ≠ some '@') := by
  rw [opensAt, funext opens_eq]

theorem exists_line {lines : List String} {row : Nat} (h : opensAt lines row = true) :
    ∃ line, lines[row]? = some line ∧ opens line = true := by
  rw [opensAt] at h
  cases hline : lines[row]? with
  | none => simp [hline] at h
  | some line => exact ⟨line, rfl, by rwa [hline, Option.any_some] at h⟩

theorem lt_of_opensAt {lines : List String} {row : Nat} (h : opensAt lines row = true) :
    row < lines.length := by
  obtain ⟨line, hline, -⟩ := exists_line h
  exact (List.getElem?_eq_some_iff.1 hline).1

/-- The first of so many lines from a row on that opens a block. -/
def openingFrom (lines : List String) : Nat → Nat → Option Nat
  | 0, _ => none
  | n + 1, i => if opensAt lines i then some i else openingFrom lines n (i + 1)

section Search

variable {lines : List String} {n i j : Nat}

theorem openingFrom_eq_some :
    openingFrom lines n i = some j ↔
      i ≤ j ∧ j < i + n ∧ opensAt lines j = true ∧ ∀ l, i ≤ l → l < j →
        opensAt lines l = false := by
  induction n generalizing i with
  | zero =>
    rw [openingFrom]
    exact ⟨nofun, fun h => absurd h.2.1 (by omega)⟩
  | succ n ih =>
    rw [openingFrom]
    cases hi : opensAt lines i with
    | true =>
      rw [if_pos rfl, Option.some.injEq]
      constructor
      · rintro rfl
        exact ⟨le_rfl, by omega, hi, fun l hl hlt => absurd hl (by omega)⟩
      · rintro ⟨hle, -, -, hnone⟩
        by_contra hne
        exact absurd (hnone i le_rfl (by omega)) (by simp [hi])
    | false =>
      rw [if_neg (by simp), ih]
      constructor
      · rintro ⟨hle, hlt, hj, hnone⟩
        refine ⟨by omega, by omega, hj, fun l hl hlj => ?_⟩
        rcases Nat.eq_or_lt_of_le hl with rfl | hl
        · exact hi
        · exact hnone l hl hlj
      · rintro ⟨hle, hlt, hj, hnone⟩
        have hne : j ≠ i := by
          rintro rfl
          simp [hi] at hj
        exact ⟨by omega, by omega, hj, fun l hl hlj => hnone l (by omega) hlj⟩

/-- Only the lines up to the one that is found matter. -/
theorem openingFrom_congr {lines' : List String}
    (h : ∀ j, i ≤ j → (∀ l, i ≤ l → l < j → opensAt lines l = false) →
      opensAt lines' j = opensAt lines j) :
    openingFrom lines' n i = openingFrom lines n i := by
  induction n generalizing i with
  | zero => rfl
  | succ n ih =>
    rw [openingFrom, openingFrom, h i le_rfl fun l hl hli => absurd hl (by omega)]
    cases hi : opensAt lines i with
    | true => rfl
    | false =>
      rw [if_neg (by simp), if_neg (by simp)]
      refine ih fun j hj hnone => h j (by omega) fun l hl hlj => ?_
      rcases Nat.eq_or_lt_of_le hl with rfl | hl
      · exact hi
      · exact hnone l hl hlj

theorem openingFrom_cons (first : String) :
    openingFrom (first :: lines) n (i + 1) = (openingFrom lines n i).map (· + 1) := by
  induction n generalizing i with
  | zero => rfl
  | succ n ih =>
    have hi : opensAt (first :: lines) (i + 1) = opensAt lines i := rfl
    rw [openingFrom, openingFrom, hi, ih]
    split <;> rfl

/-- The lines after the last one need not be searched. -/
theorem openingFrom_add (h : lines.length ≤ i + n) (m : Nat) :
    openingFrom lines (n + m) i = openingFrom lines n i := by
  refine Option.ext fun j => ?_
  rw [openingFrom_eq_some, openingFrom_eq_some]
  refine and_congr_right fun hle => ?_
  constructor
  · rintro ⟨-, hj, hnone⟩
    have hlt := lt_of_opensAt hj
    exact ⟨by omega, hj, hnone⟩
  · rintro ⟨hlt, hrest⟩
    exact ⟨by omega, hrest⟩

theorem lineAt_nat {line : String} (h : lines[i]? = some line) : lineAt lines i = .ok line := by
  have hi : ¬ (i : Int) < 0 := by omega
  simp [lineAt, hi, h]

theorem braceFrom_eq (h : n ≠ 0 → i + n ≤ lines.length) :
    braceFrom lines n i = .ok ((openingFrom lines n i).map Int.ofNat) := by
  induction n generalizing i with
  | zero => rfl
  | succ n ih =>
    have hlt : i < lines.length := by omega
    have hline : lines[i]? = some lines[i] := List.getElem?_eq_getElem hlt
    have hopens : opensAt lines i = opens lines[i] := by rw [opensAt, hline, Option.any_some]
    rw [braceFrom, lineAt_nat hline, ok_bind, openingFrom, hopens]
    cases ho : opens lines[i] with
    | true =>
      rw [opens] at ho
      simp only [ho, if_true]
      rfl
    | false =>
      rw [opens] at ho
      have hrest := ih (i := i + 1) (by omega)
      simp only [ho]
      exact hrest

theorem braceAt_eq (lines : List String) (row : Nat) :
    braceAt lines row = .ok ((openingFrom lines searchedLines row).map Int.ofNat) := by
  obtain ⟨count, hcount⟩ : ∃ count : Nat,
      (min ((row : Int) + searchedLines) lines.length - row).toNat = count := ⟨_, rfl⟩
  have hsearch : openingFrom lines searchedLines row = openingFrom lines count row := by
    rcases Nat.lt_or_ge count searchedLines with hlt | hge
    · have hadd : count + (searchedLines - count) = searchedLines := by omega
      rw [← hadd, openingFrom_add (by omega)]
    · rw [show count = searchedLines by omega]
  rw [braceAt, hcount, braceFrom_eq (by omega), ok_bind, hsearch]
  cases openingFrom lines count row with
  | none => rfl
  | some j =>
    have hne : Int.ofNat j ≠ -1 := by simp
    simp only [Option.map_some, hne, if_false]
    rfl

end Search

/-! ### Lines after lines -/

/-- The list with further elements after each of its elements. -/
def spread {α : Type} (new : Nat → List α) : List α → List α
  | [] => []
  | x :: xs => x :: (new 0 ++ spread (fun i => new (i + 1)) xs)

section Spread

variable {α : Type} {new : Nat → List α} {xs : List α} {i : Nat}

theorem spread_none (h : ∀ i, new i = []) : spread new xs = xs := by
  induction xs generalizing new with
  | nil => rfl
  | cons x xs ih => rw [spread, h 0, ih fun i => h (i + 1), List.nil_append]

/-- Up to the first new element, the list is as it was. -/
theorem getElem?_spread (h : ∀ j < i, new j = []) : (spread new xs)[i]? = xs[i]? := by
  induction xs generalizing new i with
  | nil => rfl
  | cons x xs ih =>
    cases i with
    | zero => rfl
    | succ i =>
      rw [spread, h 0 (by omega), List.nil_append, List.getElem?_cons_succ, List.getElem?_cons_succ]
      exact ih fun j hj => h (j + 1) (by omega)

theorem insert_spread (h : ∀ j < i, new j = []) (hi : i < xs.length) (block : List α) :
    (spread new xs).take (i + 1) ++ block ++ (spread new xs).drop (i + 1) =
      spread (fun j => if j = i then block ++ new j else new j) xs := by
  induction xs generalizing new i with
  | nil => simp at hi
  | cons x xs ih =>
    cases i with
    | zero => simp [spread]
    | succ i =>
      have hfront : ∀ j < i, new (j + 1) = [] := fun j hj => h (j + 1) (by omega)
      have hrest := ih hfront (by simpa using hi)
      simp only [spread, h 0 (by omega), List.nil_append, List.take_succ_cons, List.drop_succ_cons,
        List.cons_append]
      rw [hrest]
      simp

theorem spread_at {x : α} (h : xs[i]? = some x) (new : Nat → List α) :
    ∃ below, spread new xs = spread new (xs.take i) ++ x :: (new i ++ below) := by
  induction xs generalizing new i with
  | nil => simp at h
  | cons y xs ih =>
    cases i with
    | zero =>
      obtain rfl : y = x := by simpa using h
      exact ⟨_, rfl⟩
    | succ i =>
      obtain ⟨below, hbelow⟩ := ih (by simpa using h) fun j => new (j + 1)
      exact ⟨below, by simp [spread, hbelow]⟩

end Spread

/-! ### One method after the other -/

/-- Suggestions as lines below a line. -/
def indented (line : String) (suggestions : List String) : List String :=
  suggestions.map fun s => indentation line ++ "    " ++ s ++ " // suggested\n"

/-- What is added after a line by suggestions that land after the line at `place`. -/
def landed (lines : List String) (place : Option Nat) (suggestions : List String) (i : Nat) :
    List String :=
  if place = some i then indented (lines.getD i "") suggestions else []

section Methods

variable {lines : List String} {new : Nat → List String}

theorem suggestAt_none {row : Nat} (h : openingFrom lines searchedLines row = none)
    (suggestions : List String) :
    suggestAt lines row suggestions = .ok lines := by
  rw [suggestAt, braceAt_eq, h, ok_bind]
  rfl

theorem suggestAt_some {row i : Nat} (h : openingFrom lines searchedLines row = some i)
    (suggestions : List String) :
    suggestAt lines row suggestions =
      .ok (lines.take (i + 1) ++ indented (lines.getD i "") suggestions ++ lines.drop (i + 1)) := by
  obtain ⟨-, -, hopens, -⟩ := openingFrom_eq_some.1 h
  obtain ⟨line, hline, -⟩ := exists_line hopens
  have hlt := lt_of_opensAt hopens
  have hplace : Text.place lines.length ((i : Int) + 1) = i + 1 := by
    rw [Text.place]
    split <;> omega
  have hget : lines.getD i "" = line := by rw [List.getD_eq_getElem?_getD, hline]; rfl
  rw [suggestAt, braceAt_eq, h, ok_bind]
  simp only [Option.map_some, Int.ofNat_eq_natCast]
  rw [lineAt_nat hline, ok_bind, hplace, hget]
  rfl

section Step

/- New lines stand after lines that open a block, from a row on. So a search that starts there does
not meet them. -/
variable {row : Nat} (h : ∀ i, new i ≠ [] → row ≤ i ∧ opensAt lines i = true)

include h

theorem new_eq_nil {j : Nat} (hnone : ∀ l, row ≤ l → l < j → opensAt lines l = false) :
    ∀ l < j, new l = [] := by
  intro l hl
  by_contra hne
  obtain ⟨hrow, hopens⟩ := h l hne
  exact absurd (hnone l hrow hl) (by simp [hopens])

theorem openingFrom_spread (n : Nat) :
    openingFrom (spread new lines) n row = openingFrom lines n row := by
  refine openingFrom_congr fun j _ hnone => ?_
  rw [opensAt, opensAt, getElem?_spread (new_eq_nil h hnone)]

theorem suggestAt_spread (suggestions : List String) :
    suggestAt (spread new lines) row suggestions =
      .ok (spread (fun i =>
        landed lines (openingFrom lines searchedLines row) suggestions i ++ new i) lines) := by
  have hsearch := openingFrom_spread h searchedLines
  cases hfound : openingFrom lines searchedLines row with
  | none =>
    rw [suggestAt_none (hsearch.trans hfound)]
    simp only [landed, reduceCtorEq, if_false, List.nil_append]
  | some i =>
    obtain ⟨-, -, hopens, hnone⟩ := openingFrom_eq_some.1 hfound
    have hnew := new_eq_nil h hnone
    have hline : (spread new lines).getD i "" = lines.getD i "" := by
      rw [List.getD_eq_getElem?_getD, List.getD_eq_getElem?_getD, getElem?_spread hnew]
    rw [suggestAt_some (hsearch.trans hfound), hline, insert_spread hnew (lt_of_opensAt hopens)]
    congr 2
    funext j
    by_cases hj : j = i
    · simp [landed, hj]
    · simp [landed, hj, Ne.symm hj]

end Step

/-- Methods are taken from the last to the first, so the lines of the first of them stand nearest to
the brace. -/
theorem foldlM_spread {all : List (Int × List String)} (hrow : ∀ e ∈ all, 0 ≤ e.1)
    (hsorted : all.Pairwise fun a b => b.1 ≤ a.1)
    (h : ∀ i, new i ≠ [] → opensAt lines i = true ∧ ∀ e ∈ all, e.1 ≤ i) :
    all.foldlM (fun ls e => suggestAt ls e.1 e.2) (spread new lines) =
      .ok (spread (fun i => all.reverse.flatMap (fun e =>
        landed lines (openingFrom lines searchedLines e.1.toNat) e.2 i) ++ new i) lines) := by
  induction all generalizing new with
  | nil => rfl
  | cons e all ih =>
    obtain ⟨hpos, hrows⟩ := List.forall_mem_cons.1 hrow
    obtain ⟨hfirst, hrest⟩ := List.pairwise_cons.1 hsorted
    obtain ⟨row, hrowe⟩ := Int.eq_ofNat_of_zero_le hpos
    have hbefore : ∀ i, new i ≠ [] → row ≤ i ∧ opensAt lines i = true := by
      intro i hi
      obtain ⟨hopens, hle⟩ := h i hi
      have hrowi := hle e (by simp)
      exact ⟨by omega, hopens⟩
    rw [List.foldlM_cons, hrowe, suggestAt_spread hbefore, ok_bind, ih hrows hrest]
    · simp [hrowe]
    · intro i hi
      by_cases hfound : openingFrom lines searchedLines row = some i
      · obtain ⟨hle, -, hopens, -⟩ := openingFrom_eq_some.1 hfound
        refine ⟨hopens, fun e' he' => ?_⟩
        have hlater := hfirst e' he'
        omega
      · rw [landed, if_neg hfound, List.nil_append] at hi
        obtain ⟨hopens, hle⟩ := h i hi
        exact ⟨hopens, fun e' he' => hle e' (by simp [he'])⟩

end Methods

/-! ### Below the first line -/

/-- The line above a row opens a block. -/
def OpensAbove (lines : List String) (row : Nat) : Prop := 0 < row ∧ opensAt lines (row - 1) = true

instance (lines : List String) (row : Nat) : Decidable (OpensAbove lines row) :=
  inferInstanceAs (Decidable (0 < row ∧ opensAt lines (row - 1) = true))

/-- Where the suggestions of a method that starts at a row land, in a file that has a line more at
its top than the rows know of. -/
def landing (lines : List String) (row : Nat) : Option Nat :=
  if OpensAbove lines row then some (row - 1) else openingFrom lines (searchedLines - 1) row

theorem openingFrom_first {first : String} (h : opens first = false)
    (lines : List String) (row : Nat) :
    openingFrom (first :: lines) searchedLines row = (landing lines row).map (· + 1) := by
  cases row with
  | zero =>
    have hfirst : opensAt (first :: lines) 0 = false := by
      rw [opensAt, List.getElem?_cons_zero, Option.any_some, h]
    rw [landing, if_neg (by simp [OpensAbove]), ← openingFrom_cons first, searchedLines,
      openingFrom, hfirst]
    rfl
  | succ row =>
    rw [openingFrom_cons, landing, searchedLines, openingFrom]
    by_cases hopens : opensAt lines row = true
    · simp [OpensAbove, hopens]
    · simp [OpensAbove, hopens]

theorem brace_not_mem_header (average : Float) : '\x7b' ∉ (header average).toList := by
  have hdigit : ∀ c : Char, c.isDigit = true → c ≠ '\x7b' := by
    rintro c hc rfl
    exact absurd hc (by decide)
  have hnumber : '\x7b' ∉ (Decimal.fixed average 2).toList :=
    fun hmem => Decimal.forall_mem_fixed hdigit (by simp) average 2 _ hmem rfl
  obtain ⟨front, back, hheader, -, -, -, hfront, hback⟩ := exists_header_parts average
  rw [hheader]
  simp [hfront, hnumber, hback]

theorem opens_header (average : Float) : opens (header average) = false := by
  rw [← Bool.not_eq_true, opens_iff]
  exact fun h => brace_not_mem_header average h.1

/-- The lines of a text, each with its break, and with the comments of their assertions. -/
def commentedPieces (k : Class) (pieces : List String) : List String :=
  pieces.mapIdx fun i piece => (labelsAt k i).foldl (fun l label => commented label l) piece

theorem addComments_eq (k : Class) (text : String) :
    addComments k text = String.join (commentedPieces k (Text.keptLines text)) := by
  rw [addComments]
  congr 1
  refine List.ext_getElem? fun i => ?_
  rw [getElem?_foldl_commentAt, commentedPieces, List.getElem?_mapIdx]
  rfl

/-- What the suggestions for a class add after a line. -/
def added (k : Class) (pieces : List String) (i : Nat) : List String :=
  (suggestions k).reverse.flatMap fun e => landed pieces (landing pieces e.1.toNat) e.2 i

/-- The lines of the annotated file, below the first one. -/
def annotated (k : Class) (pieces : List String) : List String :=
  spread (added k pieces) (commentedPieces k pieces)

theorem pairwise_suggestions (k : Class) : (suggestions k).Pairwise fun a b => b.1 ≤ a.1 := by
  have htrans : ∀ a b c : Int × List String, decide (b.1 ≤ a.1) = true → decide (c.1 ≤ b.1) = true →
      decide (c.1 ≤ a.1) = true := by
    intro a b c hab hbc
    rw [decide_eq_true_iff] at hab hbc ⊢
    omega
  have htotal : ∀ a b : Int × List String, (decide (b.1 ≤ a.1) || decide (a.1 ≤ b.1)) = true := by
    intro a b
    rw [Bool.or_eq_true, decide_eq_true_iff, decide_eq_true_iff]
    omega
  have hsorted := List.pairwise_mergeSort htrans htotal
    ((k.methods.map fun m => (m.node.row, m.suggested.map Text.trim)).filter fun s => !s.2.isEmpty)
  exact hsorted.imp fun h => of_decide_eq_true h

section Class

variable {k : Class} {pieces : List String}

/-- A last line without a line feed gets one together with its first comment. -/
theorem areCut_foldl_commented {labels : List String} (hlabels : ∀ l ∈ labels, IsLine l)
    {line : String} (h : IsLine line) (hne : line ≠ "") :
    AreCut [labels.foldl (fun l label => commented label l) line] := by
  induction labels with
  | nil => exact .last h hne
  | cons label labels ih =>
    obtain ⟨hlabel, hrest⟩ := List.forall_mem_cons.1 hlabels
    rw [List.foldl_cons]
    by_cases hword : Text.hasWord (" // " ++ label) line = true
    · have hsame : commented label line = line := by
        simp only [commented, withoutFeed_eq_self h, if_pos hword]
      rw [hsame]
      exact ih hrest
    · have hnew : commented label line = addLabel line label ++ "\n" := by
        simp only [commented, addLabel, withoutFeed_eq_self h, if_neg hword, String.append_assoc]
      rw [hnew, foldl_commented (isLine_addLabel h hlabel) hrest]
      exact .cons (isLine_foldl_addLabel (isLine_addLabel h hlabel) hrest) .nil

theorem areCut_commentedPieces (hlabel : ∀ m ∈ k.methods, ∀ a ∈ m.assertions, IsLine a.label)
    (h : AreCut pieces) :
    AreCut (commentedPieces k pieces) := by
  refine h.mapIdx (fun i line hline => ?_) fun i line hline hne => ?_
  · have hlabels := isLine_of_mem_labelsAt hlabel i
    exact ⟨_, isLine_foldl_addLabel hline hlabels, foldl_commented hline hlabels⟩
  · exact areCut_foldl_commented (isLine_of_mem_labelsAt hlabel i) hline hne

section Braces

variable (hlabel : ∀ m ∈ k.methods, ∀ a ∈ m.assertions, '\x7b' ∉ a.label.toList)

include hlabel

theorem brace_not_mem_labelsAt (i : Nat) : ∀ l ∈ labelsAt k i, '\x7b' ∉ l.toList := by
  intro l hl
  obtain ⟨m, hm, a, ha, -, rfl⟩ := mem_labelsAt.1 hl
  exact hlabel m hm a ha

theorem opensAt_commentedPieces (i : Nat) :
    opensAt (commentedPieces k pieces) i = opensAt pieces i := by
  rw [opensAt, opensAt, commentedPieces, List.getElem?_mapIdx]
  cases pieces[i]? with
  | none => rfl
  | some piece =>
    rw [Option.map_some, Option.any_some, Option.any_some]
    exact (opens_foldl_commented (brace_not_mem_labelsAt hlabel i) piece).1

theorem landing_commentedPieces (row : Nat) :
    landing (commentedPieces k pieces) row = landing pieces row := by
  have hsearch : openingFrom (commentedPieces k pieces) (searchedLines - 1) row =
      openingFrom pieces (searchedLines - 1) row :=
    openingFrom_congr fun j _ _ => opensAt_commentedPieces hlabel j
  have habove : OpensAbove (commentedPieces k pieces) row ↔ OpensAbove pieces row := by
    rw [OpensAbove, OpensAbove, opensAt_commentedPieces hlabel]
  rw [landing, landing, hsearch]
  exact if_congr habove rfl rfl

theorem indented_commentedPieces {i : Nat} (h : opensAt pieces i = true)
    (suggestions : List String) :
    indented ((commentedPieces k pieces).getD i "") suggestions =
      indented (pieces.getD i "") suggestions := by
  rw [List.getD_eq_getElem?_getD, List.getD_eq_getElem?_getD, commentedPieces, List.getElem?_mapIdx]
  rw [opensAt] at h
  cases hi : pieces[i]? with
  | none => rfl
  | some piece =>
    rw [hi, Option.any_some] at h
    have hindent := (opens_foldl_commented (brace_not_mem_labelsAt hlabel i) piece).2 h
    simp only [Option.map_some, Option.getD_some, indented, hindent]

end Braces

theorem opensAt_of_landing {row i : Nat} (h : landing pieces row = some i) :
    opensAt pieces i = true := by
  rw [landing] at h
  split at h
  next habove =>
    obtain rfl := Option.some.inj h
    exact habove.2
  · exact (openingFrom_eq_some.1 h).2.2.1

/-- Suggestions land below a first line that opens nothing, where they would land without it. -/
theorem landed_first {first : String} (h : opens first = false) (row : Nat)
    (suggestions : List String) :
    landed (first :: pieces) (openingFrom (first :: pieces) searchedLines row) suggestions 0 = [] ∧
      ∀ i, landed (first :: pieces) (openingFrom (first :: pieces) searchedLines row)
        suggestions (i + 1) =
        landed pieces (landing pieces row) suggestions i := by
  rw [openingFrom_first h]
  constructor
  · cases landing pieces row <;> simp [landed]
  · intro i
    cases landing pieces row <;> simp [landed]

theorem spread_landed {first : String} (h : opens first = false)
    (hlabel : ∀ m ∈ k.methods, ∀ a ∈ m.assertions, '\x7b' ∉ a.label.toList) {lines : List String}
    (hlines : lines = first :: commentedPieces k pieces) :
    spread (fun i => (suggestions k).reverse.flatMap fun e =>
        landed lines (openingFrom lines searchedLines e.1.toNat) e.2 i) lines =
          first :: annotated k pieces := by
  subst hlines
  rw [spread, annotated, List.flatMap_eq_nil_iff.2 fun e _ => (landed_first h e.1.toNat e.2).1,
    List.nil_append]
  congr 2
  funext i
  refine List.flatMap_congr fun e _ => ?_
  rw [(landed_first h e.1.toNat e.2).2, landing_commentedPieces hlabel, landed, landed]
  split
  next hland => exact indented_commentedPieces hlabel (opensAt_of_landing hland) e.2
  · rfl

theorem addSuggestions_eq {text : String} (average : Float)
    (hbreak : ∀ c ∈ text.toList, Text.isBreak c = true → c = '\n')
    (hlabel : ∀ m ∈ k.methods, ∀ a ∈ m.assertions, IsLine a.label ∧ '\x7b' ∉ a.label.toList)
    (hrow : ∀ m ∈ k.methods, 0 ≤ m.node.row) :
    addSuggestions k (header average ++ addComments k text) =
      .ok (header average ++ String.join (annotated k (Text.keptLines text))) := by
  have hline : ∀ m ∈ k.methods, ∀ a ∈ m.assertions, IsLine a.label :=
    fun m hm a ha => (hlabel m hm a ha).1
  have hbrace : ∀ m ∈ k.methods, ∀ a ∈ m.assertions, '\x7b' ∉ a.label.toList :=
    fun m hm a ha => (hlabel m hm a ha).2
  -- the text is cut into the first line and the lines below it
  have hcut : AreCut (header average :: commentedPieces k (Text.keptLines text)) := by
    obtain ⟨head, hhead, hheadLine, -⟩ := exists_header average
    rw [hhead]
    exact .cons hheadLine (areCut_commentedPieces hline (Text.areCut_keptLines hbreak))
  have hpieces : Text.keptLines (header average ++ addComments k text) =
      header average :: commentedPieces k (Text.keptLines text) := by
    rw [addComments_eq, ← String.join_cons, hcut.keptLines_join]
  -- the methods are taken one after the other, the last one first
  have hrows : ∀ e ∈ suggestions k, 0 ≤ e.1 := by
    intro e he
    obtain ⟨m, hm, -, rfl⟩ := mem_suggestions.1 he
    exact hrow m hm
  have hnone : ∀ i : Nat, (fun _ : Nat => ([] : List String)) i ≠ [] →
      opensAt (header average :: commentedPieces k (Text.keptLines text)) i = true ∧
      ∀ e ∈ suggestions k, e.1 ≤ i := by
    simp
  have hrun := foldlM_spread hrows (pairwise_suggestions k) hnone
  simp only [List.append_nil] at hrun
  rw [spread_none fun _ => rfl, spread_landed (opens_header average) hbrace rfl] at hrun
  rw [addSuggestions, hpieces, hrun, ok_bind, String.join_cons]
  rfl

/-- Of the methods whose suggestions land after a line, the one that starts above the others has its
own nearest to the line. -/
theorem exists_added {m : Method} {front back : List Method}
    (hmethods : k.methods = front ++ m :: back) (hm : m.suggested ≠ []) {i : Nat}
    (hland : landing pieces m.node.row.toNat = some i)
    (hothers : ∀ m' ∈ front ++ back, m'.suggested ≠ [] → landing pieces m'.node.row.toNat = some i →
      m.node.row < m'.node.row) :
    ∃ rest, added k pieces i = indented (pieces.getD i "") (m.suggested.map Text.trim) ++ rest := by
  have hmem : (m.node.row, m.suggested.map Text.trim) ∈ (suggestions k).reverse := by
    rw [List.mem_reverse]
    exact mem_suggestions.2 ⟨m, by simp [hmethods], hm, rfl⟩
  obtain ⟨before, after, hsplit, hfirst⟩ := List.eq_append_cons_of_mem hmem
  have hsorted : ((suggestions k).reverse).Pairwise fun a b => a.1 ≤ b.1 :=
    List.pairwise_reverse.2 (pairwise_suggestions k)
  rw [hsplit, List.pairwise_append] at hsorted
  have hbefore : (before.flatMap fun e => landed pieces (landing pieces e.1.toNat) e.2 i) = [] := by
    refine List.flatMap_eq_nil_iff.2 fun e he => if_neg fun hlande => hfirst ?_
    have hle : e.1 ≤ m.node.row := hsorted.2.2 e he _ List.mem_cons_self
    have hmeme : e ∈ suggestions k := List.mem_reverse.1 (by rw [hsplit]; simp [he])
    obtain ⟨m', hm', hsuggested, rfl⟩ := mem_suggestions.1 hmeme
    rw [hmethods, List.mem_append, List.mem_cons] at hm'
    -- another method would start below
    have hsame : m' = m := by
      by_contra hne
      have hother : m' ∈ front ++ back := by
        rw [List.mem_append]
        rcases hm' with h | h | h
        · exact .inl h
        · exact absurd h hne
        · exact .inr h
      have hlt := hothers m' hother hsuggested hlande
      omega
    rwa [← hsame]
  refine ⟨after.flatMap fun e => landed pieces (landing pieces e.1.toNat) e.2 i, ?_⟩
  rw [added, hsplit, List.flatMap_append, List.flatMap_cons, hbefore, List.nil_append,
    landed, if_pos hland]

/-- In the annotated file, these lines stand right after a line, which ends with its comments. -/
def StandAfter (k : Class) (pieces : List String) (row : Nat) (line : String)
    (new : List String) : Prop :=
  ∃ below, annotated k pieces = spread (added k pieces) ((commentedPieces k pieces).take row) ++
    ((labelsAt k row).foldl addLabel line ++ "\n") :: (new ++ below)

theorem standAfter (hlabel : ∀ m ∈ k.methods, ∀ a ∈ m.assertions, IsLine a.label) {i : Nat}
    {line : String} (hline : IsLine line) (hpiece : pieces[i]? = some (line ++ "\n"))
    {new rest : List String} (hadded : added k pieces i = new ++ rest) :
    StandAfter k pieces i line new := by
  have hcommented : (commentedPieces k pieces)[i]? =
      some ((labelsAt k i).foldl addLabel line ++ "\n") := by
    rw [commentedPieces, List.getElem?_mapIdx, hpiece, Option.map_some,
      foldl_commented hline (isLine_of_mem_labelsAt hlabel i)]
  obtain ⟨below, hbelow⟩ := spread_at hcommented (added k pieces)
  exact ⟨rest ++ below, by rw [annotated, hbelow, hadded, List.append_assoc]⟩

end Class

/-- The first line from a row on that opens a block, if it is one of the lines that are searched. -/
structure IsOpening (pieces : List String) (row brace : Nat) : Prop where
  from_row : row ≤ brace
  within : brace < row + (searchedLines - 1)
  opens : opensAt pieces brace = true
  first : ∀ i, row ≤ i → i < brace → opensAt pieces i = false

theorem IsOpening.landing_eq {pieces : List String} {row brace : Nat}
    (h : IsOpening pieces row brace) :
    landing pieces row = if OpensAbove pieces row then some (row - 1) else some brace := by
  have hsearch : openingFrom pieces (searchedLines - 1) row = some brace :=
    openingFrom_eq_some.2 ⟨h.from_row, h.within, h.opens, h.first⟩
  rw [landing, hsearch]

/-- The annotated file, and where the suggestions of a method stand in it: after the line above the
method if that line opens a block, else after the line that opens the method. They stand right after
it if the other methods whose suggestions land there start further down. -/
theorem suggestions_land_below_brace_iff (k : Class) (files : Files) (text : String)
    (pieces : List String) (average : Float) (hfile : files.lookup (fileName k) = some text)
    (hbreak : ∀ c ∈ text.toList, Text.isBreak c = true → c = '\n')
    (hpieces : Text.keptLines text = pieces) (haverage : k.average = some average)
    (hlabel : ∀ m ∈ k.methods, ∀ a ∈ m.assertions, IsLine a.label ∧ '\x7b' ∉ a.label.toList)
    (hrow : ∀ m ∈ k.methods, 0 ≤ m.node.row) :
    (annotateFile k files).2 = .ok () ∧
      (annotateFile k files).1.lookup (fileName k) =
        some (header average ++ String.join (annotated k pieces)) ∧
      ∀ front m back, k.methods = front ++ m :: back → m.suggested ≠ [] →
        ∀ brace, IsOpening pieces m.node.row.toNat brace →
          (landing pieces m.node.row.toNat = some brace ↔ ¬ OpensAbove pieces m.node.row.toNat) ∧
          (OpensAbove pieces m.node.row.toNat →
            landing pieces m.node.row.toNat = some (m.node.row.toNat - 1)) ∧
          ∀ i line, landing pieces m.node.row.toNat = some i → pieces[i]? = some (line ++ "\n") →
            (∀ m' ∈ front ++ back, m'.suggested ≠ [] → landing pieces m'.node.row.toNat = some i →
              m.node.row < m'.node.row) →
            StandAfter k pieces i line (indented line (m.suggested.map Text.trim)) := by
  subst hpieces
  rw [annotateFile_of_ok hfile haverage (addSuggestions_eq average hbreak hlabel hrow)]
  refine ⟨rfl, by simp [Fuzz.lookup_insertAt], ?_⟩
  intro front m back hmethods hm brace hopening
  have hland := hopening.landing_eq
  refine ⟨?_, fun habove => by rw [hland, if_pos habove], ?_⟩
  · by_cases habove : OpensAbove (Text.keptLines text) m.node.row.toNat
    · have hne : m.node.row.toNat - 1 ≠ brace := by
        have hpos := habove.1
        have hbelow := hopening.from_row
        omega
      simp [hland, habove, hne]
    · simp [hland, habove]
  · intro i line hlands hpiece hothers
    have hline : IsLine line := (Text.areCut_keptLines hbreak).isLine (List.mem_of_getElem? hpiece)
    have hbrace : '\x7b' ∈ line.toList := by
      have hopens := opensAt_of_landing hlands
      rw [opensAt, hpiece, Option.any_some, opens_append (by decide)] at hopens
      exact (opens_iff.1 hopens).1
    obtain ⟨rest, hadded⟩ := exists_added hmethods hm hlands hothers
    rw [List.getD_eq_getElem?_getD, hpiece, Option.getD_some, indented,
      indentation_append hbrace] at hadded
    exact standAfter (fun m hm a ha => (hlabel m hm a ha).1) hline hpiece hadded

/-- A method below a blank line, with an annotation, and a method on one line; both fail for 0. -/
def spacedClass : Class where
  name := "Half"
  source := ⟨"", .empty⟩
  average := some 0.5
  methods := [{
    name := "half", id := none, node := { Node.empty with row := 2 }, params := [], locals := []
    assertions := [⟨.empty, 4, 4, "useful"⟩], changesState := false,
    wrong := [⟨"n", "int", .int 0, true⟩] }, {
    name := "third", id := none, node := { Node.empty with row := 8 }, params := [], locals := []
    assertions := [], changesState := false, wrong := [⟨"n", "int", .int 0, true⟩] }]

def spacedLines : List String :=
  ["class Half \x7b", "", "  @Case", "  int half(int n) \x7b", "    assert n > 1;",
    "    return 10 / n;", "  \x7d", "", "  int third(int n) \x7b return 9 / n; \x7d", "\x7d"]

def spacedPieces : List String := spacedLines.map (· ++ "\n")

theorem landing_spaced : IsOpening spacedPieces 2 3 ∧ landing spacedPieces 2 = some 3 ∧
    landing spacedPieces 8 = some 8 := by
  have hhalf : IsOpening spacedPieces 2 3 := by
    refine ⟨by decide, by decide, by rw [opensAt_eq]; decide, fun i hi hlt => ?_⟩
    obtain rfl : i = 2 := by omega
    rw [opensAt_eq]
    decide
  have hthird : IsOpening spacedPieces 8 8 :=
    ⟨by decide, by decide, by rw [opensAt_eq]; decide, fun i hi hlt => absurd hi (by omega)⟩
  have hblank : ¬ OpensAbove spacedPieces 2 ∧ ¬ OpensAbove spacedPieces 8 := by
    rw [OpensAbove, OpensAbove, opensAt_eq, opensAt_eq]
    decide
  refine ⟨hhalf, ?_, ?_⟩
  · rw [hhalf.landing_eq, if_neg hblank.1]
  · rw [hthird.landing_eq, if_neg hblank.2]

theorem suggestions_land_spaced :
    (annotateFile spacedClass [("Half.java", String.join spacedPieces)]).2 = .ok () ∧
      (annotateFile spacedClass [("Half.java", String.join spacedPieces)]).1.lookup "Half.java" =
        some (header 0.5 ++ String.join (annotated spacedClass spacedPieces)) ∧
      StandAfter spacedClass spacedPieces 3 "  int half(int n) \x7b"
        ["      assert n != 0; // suggested\n"] := by
  obtain ⟨hopening, hhalf, hthird⟩ := landing_spaced
  have hcut : AreCut spacedPieces := Text.areCut_map (by decide : ∀ l ∈ spacedLines, IsLine l)
  obtain ⟨hok, htext, hmethods⟩ := suggestions_land_below_brace_iff spacedClass
    [("Half.java", String.join spacedPieces)] (String.join spacedPieces) spacedPieces 0.5 rfl
    hcut.breaks hcut.keptLines_join rfl (by decide) (by decide)
  obtain ⟨-, -, hstand⟩ := hmethods [] _ _ rfl (by decide) 3 hopening
  refine ⟨hok, htext, hstand 3 _ hhalf rfl fun m' hm' _ hland => ?_⟩
  obtain rfl := List.mem_singleton.1 hm'
  exact absurd (hthird.symm.trans hland) (by decide)

/-- The same method right below the line that opens the class. -/
def crowdedClass : Class where
  name := "Half"
  source := ⟨"", .empty⟩
  average := some 0
  methods := [{
    name := "half", id := none, node := { Node.empty with row := 1 }, params := [], locals := []
    assertions := [], changesState := false, wrong := [⟨"n", "int", .int 0, true⟩] }]

def crowdedLines : List String :=
  ["class Half \x7b", "  int half(int n) \x7b", "    return 10 / n;", "  \x7d", "\x7d"]

def crowdedPieces : List String := crowdedLines.map (· ++ "\n")

/-- The suggestion stands outside of its method. -/
theorem suggestion_lands_above_method :
    IsOpening crowdedPieces 1 1 ∧
      (annotateFile crowdedClass [("Half.java", String.join crowdedPieces)]).1.lookup "Half.java" =
        some (header 0 ++ String.join
          ("class Half \x7b\n" :: "    assert n != 0; // suggested\n" :: crowdedPieces.tail)) := by
  have hopening : IsOpening crowdedPieces 1 1 :=
    ⟨by decide, by decide, by rw [opensAt_eq]; decide, fun i hi hlt => absurd hi (by omega)⟩
  have habove : OpensAbove crowdedPieces 1 := by
    rw [OpensAbove, opensAt_eq]
    decide
  have hland : landing crowdedPieces 1 = some 0 := by rw [hopening.landing_eq, if_pos habove]
  have hcut : AreCut crowdedPieces := Text.areCut_map (by decide : ∀ l ∈ crowdedLines, IsLine l)
  have hmethods :
      ((crowdedClass.methods.map fun m => (m.node.row, m.suggested.map Text.trim)).filter fun s =>
      !s.2.isEmpty) = [(1, ["assert n != 0;"])] := by decide
  have hadded : ∀ i, added crowdedClass crowdedPieces i =
      landed crowdedPieces (some 0) ["assert n != 0;"] i := by
    intro i
    rw [added, suggestions, hmethods, List.mergeSort_singleton]
    simp [hland]
  have hcommented : commentedPieces crowdedClass crowdedPieces = crowdedPieces := by
    have hlabels : ∀ i, labelsAt crowdedClass i = [] :=
      fun i => by simp [labelsAt, marks, crowdedClass]
    simp [commentedPieces, hlabels, List.mapIdx_eq_iff]
  have hannotated : annotated crowdedClass crowdedPieces =
      "class Half \x7b\n" :: "    assert n != 0; // suggested\n" :: crowdedPieces.tail := by
    rw [annotated, funext hadded, hcommented]
    decide
  have htext :=
    addSuggestions_eq 0 hcut.breaks (by decide : ∀ m ∈ crowdedClass.methods, ∀ a ∈ m.assertions,
    IsLine a.label ∧ '\x7b' ∉ a.label.toList) (by decide)
  rw [hcut.keptLines_join, hannotated] at htext
  refine ⟨hopening, ?_⟩
  rw [annotateFile_of_ok rfl rfl htext]
  exact Fuzz.lookup_insertAt ..

end Assay.Annotate
