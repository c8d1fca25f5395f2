import Assay.Proofs.Constructor
import Assay.Proofs.Value.Acceptance

/-!
# Malformed inputs

An input should stand in parentheses, with tokens and blanks between them and nothing else
(`IsWellFormed`). What is read is wider: one parenthesis at either end of the text is enough, and
characters that start no token are passed over wherever they stand. What is refused is malformed,
except for an array of characters in the argument of a constructor whose elements are not single
characters.
-/

namespace Assay

namespace Text

theorem malformed_of_readInt {s : String} {e : Fault} (h : readInt s = .error e) :
    e.kind = .malformed := by
  rw [readInt] at h
  generalize takeSign (dropEnds isBlank s.toList) = signed at h
  obtain ⟨negative, body⟩ := signed
  dsimp only at h
  split at h
  · cases h
    rfl
  · split at h
    · cases h
      rfl
    · cases h

end Text

namespace Value

theorem ofChar_eq_error {s : String} {e : Fault} (h : ofChar s = .error e) :
    s.length ≠ 1 ∧ e.kind = .violated := by
  rw [ofChar] at h
  split at h
  · cases h
  next hlength =>
    rw [← Except.error.inj h]
    exact ⟨hlength, rfl⟩

namespace Argument

theorem letter_of_array? {cs inner : List Char} {k : Char} (h : array? cs = some (k, inner)) :
    k = 'I' ∨ k = 'C' := by
  fun_induction array? cs with
  | case1 => cases h
  | case2 k' r hk inner' _ =>
    obtain ⟨rfl, rfl⟩ := Prod.mk.inj (Option.some.inj h)
    exact hk
  | case3 _ _ _ _ ih => exact ih h
  | case4 _ _ _ ih => exact ih h
  | case5 _ _ _ ih => exact ih h

/-- The first array in the text is one of characters, with an element that is not a single
character. -/
def HasLongChar (s : String) : Prop :=
  ∃ inner, array? s.toList = some ('C', inner) ∧ ∃ x ∈ elements inner, x.length ≠ 1

theorem length_of_isCharacter {s : String} (hfeed : s.toList.getLast? ≠ some '\n')
    (h : isCharacter s.toList = true) :
    s.length = 1 := by
  rw [← String.length_toList]
  unfold isCharacter at h
  split at h
  next c hs => rw [hs]; rfl
  next c hs => exact absurd (by rw [hs]; rfl) hfeed
  · cases h

/-- A text that does not end with a line feed is refused as malformed, or for the elements of an
array of characters. -/
theorem kind_of_read_error {s : String} {e : Fault} (hfeed : s.toList.getLast? ≠ some '\n')
    (h : read true s = .error e) : e.kind = .malformed ∨ e.kind = .violated ∧ HasLongChar s := by
  rw [read] at h
  split at h
  · exact .inl (Text.malformed_of_readInt (eq_error_of_map h))
  · split at h
    next inner harray =>
      obtain ⟨x, -, hx⟩ := exists_of_mapM_error (eq_error_of_bind_pure h)
      exact .inl (Text.malformed_of_readInt hx)
    next k inner hletter harray =>
      obtain ⟨x, hmem, hx⟩ := exists_of_mapM_error (eq_error_of_bind_pure h)
      obtain ⟨hlength, hkind⟩ := ofChar_eq_error hx
      obtain rfl := (letter_of_array? harray).resolve_left hletter
      exact .inr ⟨hkind, inner, harray, x, hmem, hlength⟩
    next harray =>
      split at h
      next hcharacter => exact absurd (length_of_isCharacter hfeed hcharacter) (ofChar_eq_error h).1
      · cases h
        exact .inl rfl

end Argument

end Value

namespace Token

theorem Stops.append {cs ds : List Char} (h : Stops cs) (hd : Stops ds) : Stops (cs ++ ds) := by
  cases cs with
  | nil => exact hd
  | cons c cs => exact .cons (h c rfl) _

/-- A parenthesis after a text in which only blanks are passed over is passed over too. -/
theorem Scans.append_paren {cs : List Char} {ts : List Token} {gap : List Char}
    (h : Scans cs ts gap) (hgap : ∀ c ∈ gap, IsGap c) : Scans (cs ++ [')']) ts (gap ++ [')']) := by
  induction h with
  | nil => exact .skip (beginsNone_iff.2 rfl) .nil
  | skip _ _ ih =>
    obtain ⟨hc, hgap⟩ := List.forall_mem_cons.1 hgap
    exact .skip (beginsNone_of_isGap hc _) (ih hgap)
  | token h hr _ ih =>
    rw [List.append_assoc]
    exact .token h (fun hkind => (hr hkind).append (.cons rfl [])) (ih hgap)

/-- What stands at the front of a text that is laid out. -/
theorem IsLaidOut.front {cs : List Char} (h : IsLaidOut cs) :
    cs = [] ∨ (∃ c ∈ cs.head?, IsGap c) ∨ ¬ BeginsNone cs := by
  cases h with
  | nil => exact .inl rfl
  | blank h _ => exact .inr (.inl ⟨_, rfl, h⟩)
  | @token kind ds rest h _ => exact .inr (.inr fun hnone => hnone kind ds h ⟨rest, rfl⟩)

end Token

namespace Input

open Value Token

/-- Tokens and blanks in parentheses. -/
def IsWellFormed (s : String) : Prop :=
  ∃ inner, s.toList = '(' :: (inner ++ [')']) ∧ IsLaidOut inner

/-- A parenthesis stands at one end at least. -/
def HasParenthesis (s : String) : Prop := s.toList.head? = some '(' ∨ s.toList.getLast? = some ')'

theorem HasParenthesis.ne_empty {s : String} (h : HasParenthesis s) : s ≠ "" := by
  rintro rfl
  rcases h with h | h <;> cases h

theorem exists_ends {s : String} (hs : s ≠ "") :
    ∃ first last, s.toList.head? = some first ∧ s.toList.getLast? = some last := by
  have hne : s.toList ≠ [] := mt String.toList_eq_nil_iff.1 hs
  exact ⟨_, _, List.head?_eq_some_head hne, List.getLast?_eq_some_getLast hne⟩

theorem decode_of_hasParenthesis {s : String} (h : HasParenthesis s) :
    Input.decode s = (Reader.whole.run s (Token.scan s)).1 := by
  obtain ⟨first, last, hfirst, hlast⟩ := exists_ends h.ne_empty
  rw [HasParenthesis, hfirst, hlast, Option.some.injEq, Option.some.injEq] at h
  rw [Input.decode, hfirst, hlast]
  exact if_neg fun hnot => h.elim hnot.1 hnot.2

theorem decode_of_not_hasParenthesis {s : String} (hs : s ≠ "") (h : ¬ HasParenthesis s) :
    Input.decode s =
      .error (.malformed ("Expected input to be in parenthesis, but got " ++ s)) := by
  obtain ⟨first, last, hfirst, hlast⟩ := exists_ends hs
  rw [HasParenthesis, hfirst, hlast, Option.some.injEq, Option.some.injEq] at h
  rw [Input.decode, hfirst, hlast]
  exact if_pos (not_or.1 h)

/-- A text is read if it has a parenthesis and the tokens in it are values with commas between
them. -/
theorem decode_eq_ok_iff {s : String} {vs : List Value} : Input.decode s = .ok vs ↔
    HasParenthesis s ∧ ∃ ts gap, Scans s.toList ts gap ∧ Listed IsPhrase ts vs ∧
    ∀ t ∈ ts, t.IsShort := by
  constructor
  · intro h
    have hparen : HasParenthesis s := by
      by_contra hnot
      by_cases hs : s = ""
      · subst hs
        cases h
      · rw [decode_of_not_hasParenthesis hs hnot] at h
        cases h
    rw [decode_of_hasParenthesis hparen, Reader.whole_eq_ok_iff (isLexeme_scan s)] at h
    obtain ⟨gap, hgap⟩ := exists_scans s.toList
    exact ⟨hparen, scan s, gap, hgap, h⟩
  · rintro ⟨hparen, ts, gap, hscans, h⟩
    obtain rfl : scan s = ts := hscans.scanFrom_eq
    rwa [decode_of_hasParenthesis hparen, Reader.whole_eq_ok_iff (isLexeme_scan s)]

/-- The object has an array of characters for an argument, with an element that is not a single
character. -/
def HasLongChar (t : Token) : Prop :=
  t.kind = .object ∧ ∃ a ∈ (Reader.objectParts t.text.toList).2, Argument.HasLongChar a

/-- The arguments of an object do not end with a line feed. -/
theorem last_of_mem_objectParts {cs : List Char} {a : String} (h : a ∈ (Reader.objectParts cs).2) :
    a.toList.getLast? ≠ some '\n' := by
  rw [Reader.objectParts] at h
  obtain ⟨p, -, rfl⟩ := List.mem_map.1 h
  rw [Text.trim, String.toList_ofList]
  exact fun hlast => absurd (Text.last_dropEnds _ _ '\n' hlast) (by decide)

theorem kind_of_decode_error {s : String} (hs : s ≠ "") {e : Fault}
    (h : Input.decode s = .error e) :
    e.kind = .malformed ∨ e.kind = .violated ∧ ∃ t ∈ scan s, HasLongChar t := by
  by_cases hparen : HasParenthesis s
  · rw [decode_of_hasParenthesis hparen] at h
    rcases Reader.whole_cases s (isLexeme_scan s) with ⟨vs, hok, -⟩ | ⟨e', herror, hexcused⟩
    · rw [h] at hok
      cases hok
    · obtain rfl : e = e' := Except.error.inj (h.symm.trans herror)
      rcases hexcused with hkind | ⟨t, ht, hobject, a, ha, hread⟩
      · exact .inl hkind
      · rcases Argument.kind_of_read_error (last_of_mem_objectParts ha) hread with hkind |
          ⟨hkind, hlong⟩
        · exact .inl hkind
        · exact .inr ⟨hkind, t, ht, hobject, a, ha, hlong⟩
  · rw [decode_of_not_hasParenthesis hs hparen] at h
    rw [← Except.error.inj h]
    exact .inl rfl

/-- Between the parentheses of a well-formed text stand all its tokens. -/
theorem scans_parenthesised {s : String} {inner gap : List Char} {ts : List Token}
    (hs : s.toList = '(' :: (inner ++ [')'])) (h : Scans inner ts gap) (hgap : ∀ c ∈ gap, IsGap c) :
    Scans s.toList ts ('(' :: (gap ++ [')'])) := by
  rw [hs]
  exact .skip (beginsNone_iff.2 rfl) (h.append_paren hgap)

/-- What is read and what is refused. A parenthesis at one end is enough, and all that starts no
token is passed over; so every text in parentheses that is laid out in tokens and blanks is read as
the tokens between them, but not only those. -/
theorem decode_reads_tokens_alone {s : String} (hs : s ≠ "") :
    (∀ vs, Input.decode s = .ok vs ↔
      HasParenthesis s ∧ ∃ ts gap, Scans s.toList ts gap ∧ Listed IsPhrase ts vs ∧
      ∀ t ∈ ts, t.IsShort) ∧
    (∀ e, Input.decode s = .error e → e.kind = .malformed ∨ e.kind = .violated ∧
      ∃ t ∈ scan s, HasLongChar t) ∧
    ∀ inner, s.toList = '(' :: (inner ++ [')']) → IsLaidOut inner → ∀ vs, Input.decode s = .ok vs ↔
      ∃ ts gap, Scans inner ts gap ∧ (∀ c ∈ gap, IsGap c) ∧ Listed IsPhrase ts vs ∧
        ∀ t ∈ ts, t.IsShort := by
  refine ⟨fun vs => decode_eq_ok_iff, fun e => kind_of_decode_error hs,
    fun inner hinner hlaid vs => ?_⟩
  constructor
  · intro h
    obtain ⟨ts, gap, hscans, hgap⟩ := isLaidOut_iff.1 hlaid
    obtain ⟨-, us, gap', hscans', hlisted⟩ := decode_eq_ok_iff.1 h
    obtain rfl : us = ts :=
      hscans'.scanFrom_eq.symm.trans (scans_parenthesised hinner hscans hgap).scanFrom_eq
    exact ⟨us, gap, hscans, hgap, hlisted⟩
  · rintro ⟨ts, gap, hscans, hgap, hlisted⟩
    have hparen : HasParenthesis s := .inl (by rw [hinner, List.head?_cons])
    exact decode_eq_ok_iff.2 ⟨hparen, ts, _, scans_parenthesised hinner hscans hgap, hlisted⟩

theorem decode_reads_row : "([I:2], new Cell(7))" ≠ "" ∧ HasParenthesis "([I:2], new Cell(7))" ∧
    ∃ ts gap, Scans "([I:2], new Cell(7))".toList ts gap ∧
      Listed IsPhrase ts [ofArray .int [.int 2], Reader.objectValue "Cell" (ofInt 7)] ∧
      ∀ t ∈ ts, t.IsShort := by
  have hne : "([I:2], new Cell(7))" ≠ "" := by decide
  exact ⟨hne, ((decode_reads_tokens_alone hne).1 _).1 (by rfl)⟩

/-- Texts that are read although they lack a parenthesis or hold what is no token, and one that is
refused for another reason than its form. -/
theorem malformed_inputs_accepted :
    Input.decode "(1" = .ok [ofInt 1] ∧ ¬ IsWellFormed "(1" ∧
      Input.decode "(x1)" = .ok [ofInt 1] ∧ ¬ IsWellFormed "(x1)" ∧
      ∃ message, Input.decode "(new Cell([C:ab]))" = .error (.violated message) := by
  refine ⟨by rfl, ?_, by rfl, ?_, _, by rfl⟩
  · rintro ⟨inner, hinner, -⟩
    have hlast := congrArg List.getLast? hinner
    rw [← List.cons_append, List.getLast?_concat] at hlast
    exact absurd hlast (by decide)
  · rintro ⟨inner, hinner, hlaid⟩
    obtain rfl : ['x', '1'] = inner := List.append_cancel_right (List.cons.inj hinner).2
    rcases hlaid.front with hnil | ⟨c, hc, hgap⟩ | hbegins
    · cases hnil
    · obtain rfl := Option.some.inj hc
      exact absurd hgap (by simp [IsGap])
    · exact hbegins (beginsNone_iff.2 rfl)

end Input

end Assay
