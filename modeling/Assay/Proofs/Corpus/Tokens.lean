import Mathlib.Data.Option.Basic
import Assay.Proofs.Corpus.Comparison
import Assay.Proofs.Text

/-!
# The tokens and names of comparisons

The text of a quantity is cut into the tokens of a phrase, along the way in which it was written,
and has the names of its parameters in it. `Ends` says that what follows goes on with something
else, and `Opens` that it does not make a longer mark of the one before it.
-/

namespace Assay.Corpus

open Expression (Tok token? tokens?)

section Characters

/-- No word goes on here, and no number. -/
def Ends (rest : List Char) : Prop := ∀ c ∈ rest.head?, Text.isWord c = false ∧ c ≠ '.'

/-- A mark does not become a longer one here. -/
def Opens (rest : List Char) : Prop := ∀ c ∈ rest.head?, c ∉ ['*', '=', '<', '>']

theorem forall_isDigit {P : Char → Prop} (h : ∀ n < 10, P (Char.ofNat (48 + n))) {c : Char}
    (hc : c.isDigit = true) : P c := by
  obtain ⟨hlow, hhigh⟩ := Char.isDigit_iff_toNat.1 hc
  have h0 : '0'.toNat = 48 := rfl
  have h9 : '9'.toNat = 57 := rfl
  have hP := h (c.toNat - 48) (by omega)
  rwa [show 48 + (c.toNat - 48) = c.toNat by omega, Char.ofNat_toNat] at hP

theorem isWord_of_isDigit {c : Char} (h : c.isDigit = true) : Text.isWord c = true :=
  forall_isDigit (P := fun c => Text.isWord c = true) (by decide +kernel) h

theorem isWord_of_mem {c : Char} (h : c ∈ ['_', 'e', 'E', 'x', 'X', 'o', 'O', 'b', 'B']) :
    Text.isWord c = true := by
  have hall : ['_', 'e', 'E', 'x', 'X', 'o', 'O', 'b', 'B'].all Text.isWord = true := by
    decide +kernel
  exact List.all_eq_true.1 hall c h

theorem not_isWord_of_mem {c : Char} (h : c ∈ [' ', '(', ')', '+', '-', '*', '=', '!', '<', '>']) :
    Text.isWord c = false := by
  have hall :
      [' ', '(', ')', '+', '-', '*', '=', '!', '<', '>'].all (fun c => !Text.isWord c) = true := by
    decide +kernel
  exact Bool.not_eq_true' _ ▸ List.all_eq_true.1 hall c h

/-- The letter of a parameter. -/
def letter (i : Nat) : Char := Char.ofNat ('a'.toNat + i)

theorem toList_parameterName (i : Nat) : (parameterName i).toList = [letter i] := by
  simp [parameterName, letter]

/-- What the readers ask about a letter. -/
structure IsLetter (c : Char) : Prop where
  word : Text.isWord c = true
  start : Text.isWordStart c = true
  notDecimal : Text.isDecimal c = false
  notDigit : c.isDigit = false
  notBlank : Text.isBlank c = false
  plain : c ∉ [' ', '\t', '\x0c', '#', '.', '\'', '"', ',', ']', '\n', '*', '=', '<', '>']

theorem isLetter_letter {i : Nat} (h : i < letterCount) : IsLetter (letter i) := by
  have hall : ∀ i < letterCount, Text.isWord (letter i) = true ∧
      Text.isWordStart (letter i) = true ∧
      Text.isDecimal (letter i) = false ∧ (letter i).isDigit = false ∧
      Text.isBlank (letter i) = false ∧
      letter i ∉ [' ', '\t', '\x0c', '#', '.', '\'', '"', ',', ']', '\n', '*', '=', '<', '>'] := by
    decide +kernel
  obtain ⟨hword, hstart, hdecimal, hdigit, hblank, hplain⟩ := hall i h
  exact ⟨hword, hstart, hdecimal, hdigit, hblank, hplain⟩

theorem Ends.head {c : Char} {rest : List Char} (h : Ends (c :: rest)) :
    c.isDigit = false ∧ c ∉ ['_', 'e', 'E', 'x', 'X', 'o', 'O', 'b', 'B'] ∧ c ≠ '.' := by
  obtain ⟨hword, hdot⟩ := h c rfl
  refine ⟨?_, fun hmem => ?_, hdot⟩
  · by_contra hdigit
    rw [isWord_of_isDigit (by simpa using hdigit)] at hword
    cases hword
  · rw [isWord_of_mem hmem] at hword
    cases hword

theorem Ends.append_gap (n : Nat) {rest : List Char} (h : Ends rest) : Ends (gap n ++ rest) := by
  cases n with
  | zero => exact h
  | succ n =>
    rintro c hc
    obtain rfl : ' ' = c := by simpa [gap, List.replicate_succ] using hc
    exact ⟨not_isWord_of_mem (by decide), by decide⟩

theorem Opens.append_gap (n : Nat) {rest : List Char} (h : Opens rest) : Opens (gap n ++ rest) := by
  cases n with
  | zero => exact h
  | succ n =>
    rintro c hc
    obtain rfl : ' ' = c := by simpa [gap, List.replicate_succ] using hc
    decide

theorem ends_sign (sign : Sign) (rest : List Char) : Ends (sign.char :: rest) := by
  rintro c hc
  obtain rfl : sign.char = c := by simpa using hc
  cases sign <;> exact ⟨not_isWord_of_mem (by decide), by decide⟩

theorem ends_relation (relation : Relation) (rest : List Char) :
    Ends (relation.text.toList ++ rest) := by
  cases relation <;> rintro c hc <;> obtain rfl := Option.some.inj hc <;>
    exact ⟨not_isWord_of_mem (by decide), by decide⟩

/-- A written quantity begins with a digit, a letter, a parenthesis or a minus sign. -/
theorem Written.head {r : Rank} {s : List Char} {q : Quantity} (h : Written r s q) :
    ∃ c s', s = c :: s' ∧ (c.isDigit = true ∨ IsLetter c ∨ c = '(' ∨ c = '-') := by
  induction h with
  | numeral n =>
    obtain ⟨c, s', hs⟩ := List.exists_cons_of_ne_nil (Nat.toDigits_ne_nil (n := n) (b := 10))
    exact ⟨c, s', hs, .inl (Text.isDigit_toDigits (n := n) (by simp [hs]))⟩
  | @param i h => exact ⟨letter i, [], toList_parameterName i, .inr (.inl (isLetter_letter h))⟩
  | paren m n h => exact ⟨'(', _, rfl, .inr (.inr (.inl rfl))⟩
  | neg n h => exact ⟨'-', _, rfl, .inr (.inr (.inr rfl))⟩
  | factor h ih => exact ih
  | product h ih => exact ih
  | sum h ih => exact ih
  | join sign m n hp hq ihp =>
    obtain ⟨c, s', rfl, hc⟩ := ihp
    exact ⟨c, _, rfl, hc⟩

theorem Written.opens {r : Rank} {s : List Char} {q : Quantity} (h : Written r s q)
    (rest : List Char) :
    Opens (s ++ rest) := by
  obtain ⟨d, s', rfl, hd⟩ := h.head
  rintro c hc
  obtain rfl : d = c := by simpa using hc
  rcases hd with hd | hd | rfl | rfl
  · exact forall_isDigit (P := fun c => c ∉ ['*', '=', '<', '>']) (by decide) hd
  · exact fun hmem =>
      hd.plain (List.mem_append_right [' ', '\t', '\x0c', '#', '.', '\'', '"', ',', ']', '\n'] hmem)
  · decide
  · decide

end Characters

section Tokens

variable {rest : List Char}

theorem tokens?_gap (n : Nat) (rest : List Char) : tokens? (gap n ++ rest) 0 = tokens? rest 0 := by
  induction n with
  | zero => rfl
  | succ n ih => simpa [gap, List.replicate_succ, tokens?] using ih

theorem tokens?_skip (w rest : List Char) : tokens? (w ++ rest) w.length = tokens? rest 0 := by
  induction w with
  | nil => rfl
  | cons c w ih => simpa [tokens?] using ih

theorem tokens?_of_token? {c : Char} {w : List Char} {t : Tok} (hc : c ∉ [' ', '\t', '\x0c', '#'])
    (h : token? (c :: (w ++ rest)) = some (t, w.length + 1)) :
    tokens? (c :: (w ++ rest)) 0 = (tokens? rest 0).map (t :: ·) := by
  obtain ⟨hblank, htab, hfeed, hremark⟩ : c ≠ ' ' ∧ c ≠ '\t' ∧ c ≠ '\x0c' ∧ c ≠ '#' := by
    simpa using hc
  have hskip : tokens? (w ++ rest) (w.length + 1 - 1) = tokens? rest 0 := tokens?_skip w rest
  simp only [tokens?, hblank, htab, hfeed, hremark, or_self, if_false, h, Option.bind_eq_bind,
    Option.bind_some, hskip]
  cases tokens? rest 0 <;> rfl

theorem tokens?_of_find {c : Char} {w : List Char} {m : String} (hm : m.toList = c :: w)
    (hc : c ∉ [' ', '\t', '\x0c', '#', '.', '\'', '"']) (hdigit : c.isDigit = false)
    (hword : Text.isWord c = false)
    (h : Expression.marks.find? (fun m => m.toList.isPrefixOf (c :: (w ++ rest))) = some m) :
    tokens? (m.toList ++ rest) 0 = (tokens? rest 0).map (.mark m :: ·) := by
  have hlength : m.length = w.length + 1 := by rw [← String.length_toList, hm, List.length_cons]
  simp only [List.mem_cons, List.not_mem_nil, or_false, not_or] at hc
  obtain ⟨hblank, htab, hfeed, hremark, hdot, hquote, hquotes⟩ := hc
  rw [hm]
  refine tokens?_of_token? (by simp [*]) ?_
  simp [token?, hdigit, hdot, hquote, hquotes, hword, h, hlength]

/-- The marks of comparisons. All of them but the closing parenthesis may be the front of a longer
one. -/
theorem tokens?_mark {m : String}
    (hm : m ∈ [")", "(", "+", "-", "*", "==", "!=", "<", "<=", ">", ">="])
    (h : m = ")" ∨ Opens rest) :
    tokens? (m.toList ++ rest) 0 = (tokens? rest 0).map (.mark m :: ·) := by
  have hopen : ∀ c ∈ ['*', '=', '<', '>'], m ≠ ")" → [c].isPrefixOf rest = false := by
    intro c hc hm
    have ho := h.resolve_left hm
    cases rest with
    | nil => rfl
    | cons d rest =>
      have hne : c ≠ d := fun he => ho d rfl (he ▸ hc)
      simp [List.isPrefixOf, hne]
  have hfind : ∀ c w, m.toList = c :: w → c ∉ [' ', '\t', '\x0c', '#', '.', '\'', '"'] →
      c.isDigit = false →
      c ∈ [' ', '(', ')', '+', '-', '*', '=', '!', '<', '>'] →
      Expression.marks.find? (fun m => m.toList.isPrefixOf (c :: (w ++ rest))) = some m →
      tokens? (m.toList ++ rest) 0 = (tokens? rest 0).map (.mark m :: ·) :=
    fun c w hw hc hdigit hword => tokens?_of_find hw hc hdigit (not_isWord_of_mem hword)
  simp only [List.mem_cons, List.not_mem_nil, or_false] at hm
  rcases hm with rfl | rfl | rfl | rfl | rfl | rfl | rfl | rfl | rfl | rfl | rfl
  · exact hfind ')' [] (by decide) (by decide) (by decide) (by decide) rfl
  · exact hfind '(' [] (by decide) (by decide) (by decide) (by decide) rfl
  · exact hfind '+' [] (by decide) (by decide) (by decide) (by decide) rfl
  · exact hfind '-' [] (by decide) (by decide) (by decide) (by decide) rfl
  · refine hfind '*' [] (by decide) (by decide) (by decide) (by decide) ?_
    change (match ['*'].isPrefixOf rest with | true => some "**" | false => some "*") = _
    rw [hopen '*' (by simp) (by decide)]
  · exact hfind '=' ['='] (by decide) (by decide) (by decide) (by decide) rfl
  · exact hfind '!' ['='] (by decide) (by decide) (by decide) (by decide) rfl
  · refine hfind '<' [] (by decide) (by decide) (by decide) (by decide) ?_
    change (match ['='].isPrefixOf rest with
      | true => some "<="
      | false => match ['<'].isPrefixOf rest with | true => some "<<" | false => some "<") = _
    rw [hopen '=' (by simp) (by decide), hopen '<' (by simp) (by decide)]
  · exact hfind '<' ['='] (by decide) (by decide) (by decide) (by decide) rfl
  · refine hfind '>' [] (by decide) (by decide) (by decide) (by decide) ?_
    change (match ['='].isPrefixOf rest with
      | true => some ">="
      | false => match ['>'].isPrefixOf rest with | true => some ">>" | false => some ">") = _
    rw [hopen '=' (by simp) (by decide), hopen '>' (by simp) (by decide)]
  · exact hfind '>' ['='] (by decide) (by decide) (by decide) (by decide) rfl

theorem takeWhile_letter {i : Nat} (hi : i < letterCount) (h : Ends rest) :
    (letter i :: rest).takeWhile Text.isWord = [letter i] := by
  have hword := (isLetter_letter hi).word
  cases rest with
  | nil => simp [hword]
  | cons c rest => simp [hword, (h c rfl).1]

theorem ofList_letter (i : Nat) : String.ofList [letter i] = parameterName i := by
  rw [← toList_parameterName, String.ofList_toList]

theorem tokens?_letter {i : Nat} (hi : i < letterCount) (h : Ends rest) :
    tokens? ((parameterName i).toList ++ rest) 0 =
      (tokens? rest 0).map (.name (parameterName i) :: ·) := by
  have hwords : ∀ i < letterCount, Expression.keywords.contains (parameterName i) = false ∧
      parameterName i ∉ ["True", "False", "None"] := by
    decide +kernel
  obtain ⟨hkeyword, hconst⟩ := hwords i hi
  have hl := isLetter_letter hi
  have hplain := hl.plain
  simp only [List.mem_cons, List.not_mem_nil, or_false, not_or] at hplain hconst
  rw [toList_parameterName]
  refine tokens?_of_token? (w := []) (by simp [hplain]) ?_
  simp only [token?, List.nil_append, hl.notDigit, hl.word, hl.notDecimal, takeWhile_letter hi h,
    ofList_letter, hplain, decide_false, Bool.false_and, Bool.or_false, Bool.false_eq_true,
    if_false, or_self, Bool.not_false,
    Bool.and_self, if_true]
  refine congrArg some (Prod.ext ?_ ?_)
  · dsimp only
    split
    next h => exact absurd h hconst.1
    next h => exact absurd h hconst.2.1
    next h => exact absurd h hconst.2.2
    next => rw [hkeyword, if_neg Bool.false_ne_true]
  · rw [← String.length_toList, toList_parameterName]
    rfl

theorem head?_toDigits {n : Nat} (hn : n ≠ 0) : ∃ c cs, Nat.toDigits 10 n = c :: cs ∧ c ≠ '0' := by
  induction n using Nat.strongRecOn with
  | ind n ih =>
    by_cases hlt : n < 10
    · refine ⟨n.digitChar, [], Nat.toDigits_of_lt_base hlt, ?_⟩
      simpa using hn
    · obtain ⟨c, cs, hcs, hc⟩ := ih (n / 10) (by omega) (by omega)
      exact ⟨c, cs ++ [(n % 10).digitChar],
        by rw [Nat.toDigits_of_base_le (by decide) (by omega), hcs]; rfl, hc⟩

theorem decimal?_toDigits {n : Nat} (hn : Text.isWritable n = true) (h : Ends rest) :
    Expression.decimal? (Nat.toDigits 10 n ++ rest) =
      some (.int n, (Nat.toDigits 10 n).length) := by
  have hdigits : ∀ c ∈ Nat.toDigits 10 n, c.isDigit = true := fun c hc => Text.isDigit_toDigits hc
  have htake : (Nat.toDigits 10 n ++ rest).takeWhile (fun c => c.isDigit || c = '_' || c = '.') =
      Nat.toDigits 10 n := by
    rw [List.takeWhile_append_of_pos fun c hc => by simp [hdigits c hc]]
    cases rest with
    | nil => simp
    | cons c rest =>
      obtain ⟨hdigit, hmem, hdot⟩ := h.head
      simp only [List.mem_cons, List.not_mem_nil, or_false, not_or] at hmem
      simp [hdigit, hmem, hdot]
  have hexponent : Expression.exponent rest = [] := by
    cases rest with
    | nil => rfl
    | cons c rest =>
      obtain ⟨-, hmem, -⟩ := h.head
      simp only [List.mem_cons, List.not_mem_nil, or_false, not_or] at hmem
      simp [Expression.exponent, hmem]
  have hdot : (Nat.toDigits 10 n).contains '.' = false := by
    by_contra hc
    exact absurd (hdigits '.' (by simpa using hc)) (by decide)
  have hread := Text.digitsOf?_of_isDigit false (.inl Nat.toDigits_ne_nil) hdigits
  have hvalue : Text.numberOf ((Nat.toDigits 10 n).map fun c => c.toNat - 48) = n := by
    rw [Text.numberOf, Text.numberOf_map, Nat.ofDigitChars_ten_toDigits]
  have hguard : (((Nat.toDigits 10 n).map fun c => c.toNat - 48).all (· = 0) ||
      (((Nat.toDigits 10 n).map fun c => c.toNat - 48).head? ≠ some 0 &&
        ((Nat.toDigits 10 n).map fun c => c.toNat - 48).length ≤ Text.maxDigits)) = true := by
    by_cases hzero : n = 0
    · subst hzero
      decide
    · obtain ⟨c, cs, hcs, hc⟩ := head?_toDigits hzero
      have hdigit := Char.isDigit_iff_toNat.1 (hdigits c (by simp [hcs]))
      have hne : c.toNat ≠ '0'.toNat := fun he => hc (Char.toNat_inj.1 he)
      have h0 : '0'.toNat = 48 := rfl
      have hfirst : c.toNat - 48 ≠ 0 := by omega
      have hlength : (Nat.toDigits 10 n).length ≤ Text.maxDigits := by
        simpa using Text.isWritable_iff.1 hn
      rw [List.length_map, decide_eq_true hlength, hcs]
      simp [hfirst]
  rw [Expression.decimal?]
  simp only [htake, List.drop_left, hexponent, hdot, hread, Option.bind_eq_bind, Option.bind_some,
    hguard, hvalue]
  simp

theorem tokens?_toDigits {n : Nat} (hn : Text.isWritable n = true) (h : Ends rest) :
    tokens? (Nat.toDigits 10 n ++ rest) 0 = (tokens? rest 0).map (.const (.int n) :: ·) := by
  have hdecimal := decimal?_toDigits hn h
  obtain ⟨c, w, hcw⟩ := List.exists_cons_of_ne_nil (Nat.toDigits_ne_nil (n := n) (b := 10))
  have hc : c.isDigit = true := Text.isDigit_toDigits (n := n) (by simp [hcw])
  rw [hcw] at hdecimal ⊢
  have hnumber : Expression.number? (c :: (w ++ rest)) = some (.int n, w.length + 1) := by
    have hbase : ∀ d ∈ (w ++ rest).head?, Expression.base? d = none := by
      intro d hd
      have hplain : d ∉ ['x', 'X', 'o', 'O', 'b', 'B'] := by
        cases w with
        | nil =>
          obtain ⟨rest, rfl⟩ : ∃ cs, rest = d :: cs := List.head?_eq_some_iff.1 hd
          exact fun hmem => h.head.2.1 (.tail _ (.tail _ (.tail _ hmem)))
        | cons e w =>
          obtain rfl : e = d := Option.some.inj hd
          have he := Text.isDigit_toDigits (n := n) (c := e) (by simp [hcw])
          exact forall_isDigit (P := fun c => c ∉ ['x', 'X', 'o', 'O', 'b', 'B']) (by decide) he
      simp only [List.mem_cons, List.not_mem_nil, or_false, not_or] at hplain
      simp [Expression.base?, hplain]
    have hnext : ((c :: (w ++ rest)).drop (w.length + 1)).head?.any Text.isWord = false := by
      rw [List.drop_succ_cons, List.drop_left]
      cases rest with
      | nil => rfl
      | cons d rest => exact (h d rfl).1
    have hguarded : (do
        let r ← Expression.decimal? (c :: (w ++ rest))
        guard (!((c :: (w ++ rest)).drop r.2).head?.any Text.isWord)
        return r) = some (Datum.int n, w.length + 1) := by
      rw [show Expression.decimal? (c :: (w ++ rest)) = some (.int n, w.length + 1) from hdecimal]
      simp only [Option.bind_eq_bind, Option.bind_some, hnext]
      rfl
    unfold Expression.number?
    split
    next d cs heq =>
      rw [hbase d (by rw [(List.cons.inj heq).2]; rfl)]
      exact hguarded
    next => exact hguarded
  refine tokens?_of_token? ?_ ?_
  · exact forall_isDigit (P := fun c => c ∉ [' ', '\t', '\x0c', '#']) (by decide) hc
  · simp [token?, hc, hnumber]

/-- The tokens of a written quantity. -/
inductive Phrase : Rank → List Tok → Quantity → Prop
  | numeral (n : Nat) : Phrase .atom [.const (.int n)] (.numeral n)
  | param (i : Nat) : Phrase .atom [.name (parameterName i)] (.param i)
  | paren {ts : List Tok} {q : Quantity} (h : Phrase .sum ts q) :
      Phrase .atom (.mark "(" :: (ts ++ [.mark ")"])) q
  | neg {ts : List Tok} {q : Quantity} (h : Phrase .factor ts q) :
      Phrase .factor (.mark "-" :: ts) (.neg q)
  | factor {ts : List Tok} {q : Quantity} (h : Phrase .atom ts q) : Phrase .factor ts q
  | product {ts : List Tok} {q : Quantity} (h : Phrase .factor ts q) : Phrase .product ts q
  | sum {ts : List Tok} {q : Quantity} (h : Phrase .product ts q) : Phrase .sum ts q
  | join {ts us : List Tok} {p q : Quantity} (sign : Sign) (hp : Phrase sign.rank ts p)
      (hq : Phrase sign.next us q) :
      Phrase sign.rank (ts ++ .mark (String.singleton sign.char) :: us) (.join sign p q)

/-- The text is cut into the tokens, whatever follows it that is of this kind. -/
def Cuts (P : List Char → Prop) (s : List Char) (ts : List Tok) : Prop :=
  ∀ rest, P rest → tokens? (s ++ rest) 0 = (tokens? rest 0).map (ts ++ ·)

theorem Cuts.append {P Q : List Char → Prop} {s t : List Char} {ts us : List Tok} (hs : Cuts P s ts)
    (ht : Cuts Q t us) (h : ∀ rest, Q rest → P (t ++ rest)) : Cuts Q (s ++ t) (ts ++ us) := by
  intro rest hrest
  rw [List.append_assoc, hs _ (h rest hrest), ht rest hrest, Option.map_map]
  congr 1
  funext vs
  simp

theorem cuts_gap (P : List Char → Prop) (n : Nat) : Cuts P (gap n) [] := by
  intro rest _
  rw [tokens?_gap]
  simp

theorem cuts_mark {m : String}
    (hm : m ∈ [")", "(", "+", "-", "*", "==", "!=", "<", "<=", ">", ">="]) :
    Cuts Opens m.toList [.mark m] :=
  fun _ hrest => tokens?_mark hm (.inr hrest)

theorem cuts_close (P : List Char → Prop) : Cuts P [')'] [.mark ")"] :=
  fun _ _ => tokens?_mark (m := ")") (by decide) (.inl rfl)

theorem ends_close (rest : List Char) : Ends (')' :: rest) := by
  rintro c hc
  obtain rfl := Option.some.inj hc
  exact ⟨not_isWord_of_mem (by decide), by decide⟩

/-- A written quantity is cut into the tokens of a phrase, whatever ends it. -/
theorem Written.cuts {r : Rank} {s : List Char} {q : Quantity} (h : Written r s q)
    (hshort : q.IsShort) :
    ∃ ts, Phrase r ts q ∧ Cuts Ends s ts := by
  induction h with
  | numeral n => exact ⟨_, .numeral n, fun rest hrest => tokens?_toDigits hshort hrest⟩
  | @param i hi => exact ⟨_, .param i, fun rest hrest => tokens?_letter hi hrest⟩
  | @paren s q m n h ih =>
    obtain ⟨ts, hts, hcuts⟩ := ih hshort
    refine ⟨_, .paren hts, ?_⟩
    have hopens : ∀ rest, Opens (gap m ++ (s ++ (gap n ++ [')'])) ++ rest) := by
      intro rest
      simpa only [List.append_assoc] using (h.opens _).append_gap m
    have hends : ∀ rest, Ends (gap n ++ [')'] ++ rest) := by
      intro rest
      simpa only [List.append_assoc, List.singleton_append] using (ends_close rest).append_gap n
    have hclose := (cuts_gap (fun _ => True) n).append (cuts_close Ends) fun _ _ => trivial
    have hinner := (cuts_gap (fun _ => True) m).append
      (hcuts.append hclose fun rest _ => hends rest) fun _ _ => trivial
    exact (cuts_mark (m := "(") (by decide)).append hinner fun rest _ => hopens rest
  | @neg s q n h ih =>
    obtain ⟨ts, hts, hcuts⟩ := ih hshort
    refine ⟨_, .neg hts, ?_⟩
    have hopens : ∀ rest, Opens (gap n ++ s ++ rest) := by
      intro rest
      simpa only [List.append_assoc] using (h.opens rest).append_gap n
    have hinner := (cuts_gap (fun _ => True) n).append hcuts fun _ _ => trivial
    exact (cuts_mark (m := "-") (by decide)).append hinner fun rest _ => hopens rest
  | factor h ih =>
    obtain ⟨ts, hts, hcuts⟩ := ih hshort
    exact ⟨ts, .factor hts, hcuts⟩
  | product h ih =>
    obtain ⟨ts, hts, hcuts⟩ := ih hshort
    exact ⟨ts, .product hts, hcuts⟩
  | sum h ih =>
    obtain ⟨ts, hts, hcuts⟩ := ih hshort
    exact ⟨ts, .sum hts, hcuts⟩
  | @join s t p q sign m n hp hq ihp ihq =>
    obtain ⟨ts, hts, hcuts⟩ := ihp hshort.1
    obtain ⟨us, hus, hcuts'⟩ := ihq hshort.2.1
    refine ⟨_, .join sign hts hus, ?_⟩
    have hopens : ∀ rest, Opens (gap n ++ t ++ rest) := by
      intro rest
      simpa only [List.append_assoc] using (hq.opens rest).append_gap n
    have hends : ∀ rest, Ends (gap m ++ ([sign.char] ++ (gap n ++ t)) ++ rest) := by
      intro rest
      simpa only [List.append_assoc, List.cons_append, List.nil_append] using
        (ends_sign sign (gap n ++ (t ++ rest))).append_gap m
    have hsign : Cuts Opens [sign.char] [.mark (String.singleton sign.char)] := by
      cases sign with
      | add => exact cuts_mark (m := "+") (by decide)
      | sub => exact cuts_mark (m := "-") (by decide)
      | mul => exact cuts_mark (m := "*") (by decide)
    have hright := (cuts_gap (fun _ => True) n).append hcuts' fun _ _ => trivial
    have hmiddle :=
      (cuts_gap (fun _ => True) m).append (hsign.append hright fun rest _ => hopens rest)
      fun _ _ => trivial
    exact hcuts.append hmiddle fun rest _ => hends rest

end Tokens

section Names

theorem namesIn_append_of_not {w : List Char} (h : ∀ c ∈ w, Text.isWordStart c = false)
    (rest : List Char) :
    namesIn (w ++ rest) 0 = namesIn rest 0 := by
  induction w with
  | nil => rfl
  | cons c w ih => simp [namesIn, h c (by simp), ih fun d hd => h d (by simp [hd])]

theorem not_isWordStart_gap {n : Nat} : ∀ c ∈ gap n, Text.isWordStart c = false := by
  intro c hc
  obtain rfl := List.eq_of_mem_replicate hc
  decide

/-- A written quantity has the names of its parameters in it. -/
theorem Written.namesIn_eq {r : Rank} {s : List Char} {q : Quantity} (h : Written r s q)
    {rest : List Char} (hrest : Ends rest) :
    namesIn (s ++ rest) 0 = q.params.map parameterName ++ namesIn rest 0 := by
  induction h generalizing rest with
  | numeral n =>
    refine namesIn_append_of_not (fun c hc => ?_) rest
    exact forall_isDigit (P := fun c => Text.isWordStart c = false) (by decide)
      (Text.isDigit_toDigits hc)
  | @param i hi =>
    have hstart := (isLetter_letter hi).start
    simp [toList_parameterName, namesIn, hstart, takeWhile_letter hi hrest, Quantity.params]
    rfl
  | @paren s q m n h ih =>
    have hopen : ∀ c ∈ '(' :: gap m, Text.isWordStart c = false := by
      simpa using ⟨by decide, not_isWordStart_gap⟩
    have hclose : ∀ c ∈ gap n ++ [')'], Text.isWordStart c = false := by
      simpa [or_imp, forall_and] using ⟨not_isWordStart_gap, by decide⟩
    have hends : Ends (gap n ++ [')'] ++ rest) := by
      simpa only [List.append_assoc, List.singleton_append] using (ends_close rest).append_gap n
    calc namesIn ('(' :: (gap m ++ (s ++ (gap n ++ [')']))) ++ rest) 0
      _ = namesIn (('(' :: gap m) ++ (s ++ ((gap n ++ [')']) ++ rest))) 0 := by simp
      _ = q.params.map parameterName ++ namesIn rest 0 := by
        rw [namesIn_append_of_not hopen, ih hends, namesIn_append_of_not hclose]
  | @neg s q n h ih =>
    have hopen : ∀ c ∈ '-' :: gap n, Text.isWordStart c = false := by
      simpa using ⟨by decide, not_isWordStart_gap⟩
    calc namesIn ('-' :: (gap n ++ s) ++ rest) 0
      _ = namesIn (('-' :: gap n) ++ (s ++ rest)) 0 := by simp
      _ = q.params.map parameterName ++ namesIn rest 0 := by
        rw [namesIn_append_of_not hopen, ih hrest]
  | factor h ih => exact ih hrest
  | product h ih => exact ih hrest
  | sum h ih => exact ih hrest
  | @join s t p q sign m n hp hq ihp ihq =>
    have hsign : ∀ c ∈ gap m ++ sign.char :: gap n, Text.isWordStart c = false := by
      have hchar : Text.isWordStart sign.char = false := by cases sign <;> decide
      simpa [or_imp, forall_and] using ⟨not_isWordStart_gap, hchar, not_isWordStart_gap⟩
    have hends : Ends (gap m ++ sign.char :: gap n ++ (t ++ rest)) := by
      simpa only [List.append_assoc, List.cons_append]
        using (ends_sign sign (gap n ++ (t ++ rest))).append_gap m
    calc namesIn (s ++ (gap m ++ sign.char :: (gap n ++ t)) ++ rest) 0
      _ = namesIn (s ++ ((gap m ++ sign.char :: gap n) ++ (t ++ rest))) 0 := by simp
      _ = (p.params ++ q.params).map parameterName ++ namesIn rest 0 := by
        rw [ihp hends, namesIn_append_of_not hsign, ihq hrest, List.map_append, List.append_assoc]

theorem Comparison.namesIn_eq {s : List Char} {c : Comparison} (h : c.IsText s) :
    namesIn s 0 = c.params.map parameterName := by
  obtain ⟨l, r, m, n, hl, hr, rfl⟩ := h
  have hrelation : ∀ d ∈ gap m ++ (c.relation.text.toList ++ gap n),
      Text.isWordStart d = false := by
    have hall : c.relation.text.toList.all (fun d => !Text.isWordStart d) = true := by
      cases c.relation <;> decide
    have htext : ∀ d ∈ c.relation.text.toList, Text.isWordStart d = false := by simpa using hall
    simpa [or_imp, forall_and] using ⟨not_isWordStart_gap, htext, not_isWordStart_gap⟩
  have hends : Ends (gap m ++ (c.relation.text.toList ++ gap n) ++ r) := by
    simpa only [List.append_assoc] using (ends_relation c.relation (gap n ++ r)).append_gap m
  have hnil : Ends [] := nofun
  calc namesIn (l ++ (gap m ++ (c.relation.text.toList ++ (gap n ++ r)))) 0
    _ = namesIn (l ++ ((gap m ++ (c.relation.text.toList ++ gap n)) ++ (r ++ []))) 0 := by simp
    _ = c.params.map parameterName := by
      rw [hl.namesIn_eq (by simpa using hends), namesIn_append_of_not hrelation, hr.namesIn_eq hnil]
      simp [namesIn, Comparison.params]

end Names

end Assay.Corpus
