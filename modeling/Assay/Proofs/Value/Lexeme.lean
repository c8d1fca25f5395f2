import Assay.Proofs.Text
import Assay.Value.Token

/-!
# The words of value texts

`kind.Form cs`: the text `cs` is a token of the kind. The first character of a token tells its kind,
and where it ends, except that a number goes on as long as digits follow. So at each place the
scanner takes the token that begins there, if there is one, and passes over a single character if
there is none (`Scans`). A text that is laid out in tokens and blanks (`IsLaidOut`) is one in which
only blanks are passed over, wherever its numbers are taken apart.
-/

namespace Assay.Token

/-- The text does not go on with a digit. -/
def Stops (rest : List Char) : Prop := ∀ c ∈ rest.head?, Text.isDecimal c = false

theorem Stops.cons {c : Char} (h : Text.isDecimal c = false) (rest : List Char) :
    Stops (c :: rest) := by
  intro d hd
  rw [← Option.some.inj hd]
  exact h

/-- The texts of a number: digits of any script, perhaps after a minus sign. -/
def signed (negative : Bool) (ds : List Char) : List Char := (if negative then ['-'] else []) ++ ds

/-- The texts that are tokens of a kind. -/
inductive Kind.Form : Kind → List Char → Prop
  | openArray {k : Char} (h : k = 'I' ∨ k = 'C') : Form .openArray ['[', k, ':']
  | closeArray : Form .closeArray [']']
  | comma : Form .comma [',']
  | int (negative : Bool) {ds : List Char} (hne : ds ≠ [])
      (hd : ∀ c ∈ ds, Text.isDecimal c = true) :
      Form .int (signed negative ds)
  | bool (b : Bool) : Form .bool (if b then ['t', 'r', 'u', 'e'] else ['f', 'a', 'l', 's', 'e'])
  | char {c : Char} (h : c ≠ '\'') : Form .char ['\'', c, '\'']
  | object {name args : List Char} (hne : name ≠ []) (hname : ∀ c ∈ name, isNameChar c = true)
      (hargs : ')' ∉ args) :
      Form .object (['n', 'e', 'w', ' '] ++ (name ++ '(' :: (args ++ [')'])))

/-- The token has a text of its kind. -/
def IsLexeme (t : Token) : Prop := t.kind.Form t.text.toList

theorem length_takeWhile_isDecimal {ds rest : List Char} (hd : ∀ c ∈ ds, Text.isDecimal c = true)
    (hr : Stops rest) :
    ((ds ++ rest).takeWhile Text.isDecimal).length = ds.length := by
  cases rest with
  | nil => rw [List.append_nil, List.takeWhile_eq_self_iff.2 hd]
  | cons c rest => rw [Text.takeWhile_append_stop hd (hr c rfl)]

theorem stops_dropWhile (cs : List Char) : Stops (cs.dropWhile Text.isDecimal) := by
  intro c hc
  have hhead := List.head?_dropWhile_not Text.isDecimal cs
  rw [hc] at hhead
  exact hhead

theorem objectLength?_append {name args : List Char} (hne : name ≠ [])
    (hname : ∀ c ∈ name, isNameChar c = true) (hargs : ')' ∉ args) (rest : List Char) :
    objectLength? (['n', 'e', 'w', ' '] ++ (name ++ '(' :: (args ++ [')'])) ++ rest) =
      some (['n', 'e', 'w', ' '] ++ (name ++ '(' :: (args ++ [')']))).length := by
  have hstop : isNameChar '(' = false := by decide
  have hafter : Text.after? ['n', 'e', 'w', ' ']
      (['n', 'e', 'w', ' '] ++ (name ++ '(' :: (args ++ [')'])) ++ rest) =
      some (name ++ '(' :: (args ++ ')' :: rest)) := by
    rw [Text.after?_eq_some_iff]
    simp
  have hdrop : (name ++ '(' :: (args ++ ')' :: rest)).dropWhile isNameChar =
      '(' :: (args ++ ')' :: rest) := by
    rw [List.dropWhile_append_of_pos hname, List.dropWhile_cons_of_neg (by simp [hstop])]
  have hlength : (['n', 'e', 'w', ' '] ++ (name ++ '(' :: (args ++ [')']))).length =
      4 + name.length + 1 + args.length + 1 := by
    simp only [List.length_append, List.length_cons, List.length_nil]
    omega
  obtain ⟨c, cs, rfl⟩ := List.exists_cons_of_ne_nil hne
  simp only [objectLength?, hafter, Text.takeWhile_append_stop hname hstop, hdrop,
    Text.cutAtFirst?_append rest hargs, hlength]

theorem eq_of_objectLength? {cs : List Char} {n : Nat} (h : objectLength? cs = some n) :
    ∃ ds rest, cs = ds ++ rest ∧ ds.length = n ∧ Kind.Form .object ds := by
  rw [objectLength?] at h
  split at h
  next => cases h
  next r hafter =>
    have hcs := Text.after?_eq_some_iff.1 hafter
    have hsplit := List.takeWhile_append_dropWhile (p := isNameChar) (l := r)
    have hname : ∀ c ∈ r.takeWhile isNameChar, isNameChar c = true :=
      fun c hc => List.mem_takeWhile_imp hc
    dsimp only at h
    split at h
    next x xs args htake hdrop =>
      split at h
      next inner rest hcut =>
        obtain ⟨rfl, hinner⟩ := Text.eq_of_cutAtFirst? hcut
        rw [htake] at hname
        rw [htake, hdrop] at hsplit
        refine ⟨_, rest, ?_, ?_, .object (List.cons_ne_nil x xs) hname hinner⟩
        · rw [hcs, ← hsplit]
          simp
        · rw [← Option.some.inj h, htake]
          simp only [List.length_append, List.length_cons, List.length_nil]
          omega
      next => cases h
    next => cases h

namespace Kind.Form

variable {kind : Kind} {ds rest : List Char}

theorem ne_nil (h : kind.Form ds) : ds ≠ [] := by
  cases h with
  | int negative hne => simp [signed, hne]
  | bool b => cases b <;> simp
  | _ => simp

/-- A token is found at the front of a text; no digit may follow a number. -/
theorem first?_append (h : kind.Form ds) (hr : kind = .int → Stops rest) :
    first? (ds ++ rest) = some (kind, ds.length) := by
  cases h with
  | openArray h => simp [first?, h]
  | closeArray => rfl
  | comma => rfl
  | @int negative ds hne hd =>
    have hlen := length_takeWhile_isDecimal hd (hr rfl)
    obtain ⟨d, ds, rfl⟩ := List.exists_cons_of_ne_nil hne
    cases negative with
    | true =>
      simp only [List.cons_append] at hlen
      simp [signed, first?, hlen, show Text.isDecimal '-' = false from rfl, Nat.add_comm]
    | false =>
      have hdigit := hd d (by simp)
      have hlen := length_takeWhile_isDecimal
        (fun c hc => hd c (by simp [hc]) : ∀ c ∈ ds, Text.isDecimal c = true) (hr rfl)
      have h1 : d ≠ '[' := by rintro rfl; exact absurd hdigit (by decide)
      have h2 : d ≠ ']' := by rintro rfl; exact absurd hdigit (by decide)
      have h3 : d ≠ ',' := by rintro rfl; exact absurd hdigit (by decide)
      simp [signed, first?, h1, h2, h3, hdigit, hlen, Nat.add_comm]
  | bool b => cases b <;> rfl
  | char h => simp [first?, h, show Text.isDecimal '\'' = false from rfl]
  | object hne hname hargs =>
    have hlength := objectLength?_append hne hname hargs rest
    simp only [List.cons_append, List.nil_append] at hlength ⊢
    simp only [first?, hlength, show Text.isDecimal 'n' = false from rfl]
    rfl

end Kind.Form

/-- The text begins with a token of this kind and length; a number is taken to its end. -/
def Begins (cs : List Char) (kind : Kind) (n : Nat) : Prop :=
  ∃ ds rest, cs = ds ++ rest ∧ ds.length = n ∧ kind.Form ds ∧ (kind = .int → Stops rest)

theorem Begins.of_form {cs ds rest : List Char} {kind : Kind} (h : kind.Form ds)
    (hr : kind = .int → Stops rest) (hcs : cs = ds ++ rest) : Begins cs kind ds.length :=
  ⟨ds, rest, hcs, rfl, h, hr⟩

/-- What is found at the front of a text is a token. -/
theorem begins_of_first? {cs : List Char} {kind : Kind} {n : Nat} (h : first? cs = some (kind, n)) :
    Begins cs kind n := by
  have hsplit : ∀ r : List Char, r = r.takeWhile Text.isDecimal ++ r.dropWhile Text.isDecimal :=
    fun r => List.takeWhile_append_dropWhile.symm
  have hdigits : ∀ r : List Char, ∀ d ∈ r.takeWhile Text.isDecimal, Text.isDecimal d = true :=
    fun r d hd => List.mem_takeWhile_imp hd
  revert h
  fun_cases first? cs with
  | case2 k more hk =>
    rintro ⟨⟩
    exact .of_form (.openArray hk) Kind.noConfusion rfl
  | case5 =>
    rintro ⟨⟩
    exact .of_form .closeArray Kind.noConfusion rfl
  | case6 =>
    rintro ⟨⟩
    exact .of_form .comma Kind.noConfusion rfl
  | case7 c r _ _ _ hc =>
    rintro ⟨⟩
    have hform : Kind.Form .int (signed false (c :: r.takeWhile Text.isDecimal)) :=
      .int false (List.cons_ne_nil _ _) (List.forall_mem_cons.2 ⟨hc, hdigits r⟩)
    rw [Nat.add_comm]
    exact .of_form hform (fun _ => stops_dropWhile r) (congrArg (c :: ·) (hsplit r))
  | case9 r _ _ _ _ hne =>
    rintro ⟨⟩
    have hform : Kind.Form .int (signed true (r.takeWhile Text.isDecimal)) :=
      .int true (fun hnil => hne (congrArg List.length hnil)) (hdigits r)
    rw [Nat.add_comm]
    exact .of_form hform (fun _ => stops_dropWhile r) (congrArg ('-' :: ·) (hsplit r))
  | case11 x more hx =>
    rintro ⟨⟩
    exact .of_form (.char hx) Kind.noConfusion rfl
  | case13 r =>
    intro h
    obtain ⟨m, hlength, ⟨⟩⟩ := Option.map_eq_some_iff.1 h
    obtain ⟨ds, rest, hcs, rfl, hform⟩ := eq_of_objectLength? hlength
    exact .of_form hform Kind.noConfusion hcs
  | case14 c r _ _ _ _ _ _ _ htrue =>
    obtain ⟨rest, hrest⟩ := Option.isSome_iff_exists.1 htrue
    rw [if_pos htrue]
    rintro ⟨⟩
    exact .of_form (.bool true) Kind.noConfusion (Text.after?_eq_some_iff.1 hrest)
  | case15 c r _ _ _ _ _ _ _ hnot hfalse =>
    obtain ⟨rest, hrest⟩ := Option.isSome_iff_exists.1 hfalse
    rw [if_neg hnot, if_pos hfalse]
    rintro ⟨⟩
    exact .of_form (.bool false) Kind.noConfusion (Text.after?_eq_some_iff.1 hrest)
  | case16 c r _ _ _ _ _ _ _ hnot hnot' =>
    rw [if_neg hnot, if_neg hnot']
    exact nofun
  | _ => exact nofun

/-- No token stands at the front of the text. -/
def BeginsNone (cs : List Char) : Prop := ∀ kind ds, Kind.Form kind ds → ¬ ds <+: cs

/-- More digits make a number longer. -/
theorem Kind.Form.int_append {ds es : List Char} (h : Kind.Form .int ds)
    (he : ∀ c ∈ es, Text.isDecimal c = true) :
    Kind.Form .int (ds ++ es) := by
  cases h with
  | @int negative ds hne hd =>
    rw [signed, List.append_assoc]
    exact .int negative (fun hnil => hne (List.append_eq_nil_iff.1 hnil).1)
      (List.forall_mem_append.2 ⟨hd, he⟩)

/-- A token that begins with a digit is a number without a sign. -/
theorem Kind.Form.digits {kind : Kind} {es : List Char} (h : kind.Form es) {d : Char}
    (hes : es.head? = some d) (hd : Text.isDecimal d = true) :
    kind = .int ∧ ∀ c ∈ es, Text.isDecimal c = true := by
  have absurd_head : ∀ c : Char, Text.isDecimal c = false → some c = some d → False := by
    rintro c hc ⟨⟩
    rw [hd] at hc
    cases hc
  cases h with
  | openArray => exact (absurd_head _ rfl hes).elim
  | closeArray => exact (absurd_head _ rfl hes).elim
  | comma => exact (absurd_head _ rfl hes).elim
  | int negative hne hdigits =>
    cases negative with
    | true => exact (absurd_head _ rfl hes).elim
    | false => exact ⟨rfl, hdigits⟩
  | bool b => cases b <;> exact (absurd_head _ rfl hes).elim
  | char => exact (absurd_head _ rfl hes).elim
  | object => exact (absurd_head _ rfl hes).elim

theorem beginsNone_iff {cs : List Char} : BeginsNone cs ↔ first? cs = none := by
  constructor
  · intro h
    cases hfirst : first? cs with
    | none => rfl
    | some p =>
      obtain ⟨ds, rest, hcs, -, hform, -⟩ := begins_of_first? hfirst
      exact absurd ⟨rest, hcs.symm⟩ (h p.1 ds hform)
  · rintro h kind ds hform ⟨rest, rfl⟩
    by_cases hkind : kind = .int
    · -- all digits that follow belong to the number
      subst hkind
      have hlong :=
        hform.int_append fun c hc => List.mem_takeWhile_imp (p := Text.isDecimal) (l := rest) hc
      have hfirst := hlong.first?_append fun _ => stops_dropWhile rest
      rw [List.append_assoc, List.takeWhile_append_dropWhile, h] at hfirst
      cases hfirst
    · have hfirst : first? (ds ++ rest) = _ := hform.first?_append fun he => absurd he hkind
      rw [h] at hfirst
      cases hfirst

/-- The tokens of a text, in order, and the characters between them that are passed over. -/
inductive Scans : List Char → List Token → List Char → Prop
  | nil : Scans [] [] []
  | skip {c : Char} {cs : List Char} {ts : List Token} {gap : List Char} (h : BeginsNone (c :: cs))
      (hs : Scans cs ts gap) :
      Scans (c :: cs) ts (c :: gap)
  | token {kind : Kind} {ds rest : List Char} {ts : List Token} {gap : List Char} (h : kind.Form ds)
      (hr : kind = .int → Stops rest) (hs : Scans rest ts gap) :
      Scans (ds ++ rest) (⟨kind, String.ofList ds⟩ :: ts) gap

theorem scanFrom_length (cs rest : List Char) :
    scanFrom cs.length (cs ++ rest) = scanFrom 0 rest := by
  induction cs with
  | nil => rfl
  | cons c cs ih => exact ih

/-- A word that is found as a token is cut off as a whole. -/
theorem scanFrom_word {kind : Kind} {c : Char} {cs rest : List Char}
    (h : first? (c :: cs ++ rest) = some (kind, (c :: cs).length)) :
    scanFrom 0 (c :: cs ++ rest) = ⟨kind, String.ofList (c :: cs)⟩ :: scanFrom 0 rest := by
  have htake : (c :: (cs ++ rest)).take (c :: cs).length = c :: cs := by simp
  rw [List.cons_append] at h ⊢
  simp only [scanFrom, h, htake]
  rw [List.length_cons, Nat.add_sub_cancel, scanFrom_length]

theorem scanFrom_token {kind : Kind} {ds rest : List Char} (h : kind.Form ds)
    (hr : kind = .int → Stops rest) :
    scanFrom 0 (ds ++ rest) = ⟨kind, String.ofList ds⟩ :: scanFrom 0 rest := by
  have hfirst := h.first?_append hr
  obtain ⟨c, cs, rfl⟩ := List.exists_cons_of_ne_nil h.ne_nil
  exact scanFrom_word hfirst

theorem scanFrom_skip {c : Char} {cs : List Char} (h : BeginsNone (c :: cs)) :
    scanFrom 0 (c :: cs) = scanFrom 0 cs := by
  simp only [scanFrom, beginsNone_iff.1 h]

/-- The scanner finds the tokens. -/
theorem Scans.scanFrom_eq {cs : List Char} {ts : List Token} {gap : List Char}
    (h : Scans cs ts gap) :
    scanFrom 0 cs = ts := by
  induction h with
  | nil => rfl
  | skip h _ ih => rw [scanFrom_skip h, ih]
  | token h hr _ ih => rw [scanFrom_token h hr, ih]

/-- Every text is made of tokens and of characters that are passed over. -/
theorem exists_scans (cs : List Char) : ∃ gap, Scans cs (scanFrom 0 cs) gap := by
  induction hn : cs.length using Nat.strongRecOn generalizing cs with
  | ind n ih =>
    cases cs with
    | nil => exact ⟨[], .nil⟩
    | cons c cs =>
      cases hfirst : first? (c :: cs) with
      | none =>
        have hnone := beginsNone_iff.2 hfirst
        obtain ⟨gap, hgap⟩ := ih cs.length (by simp [← hn]) cs rfl
        exact ⟨c :: gap, scanFrom_skip hnone ▸ .skip hnone hgap⟩
      | some p =>
        obtain ⟨ds, rest, hcs, -, hform, hr⟩ := begins_of_first? hfirst
        have hpos := List.length_pos_iff.2 hform.ne_nil
        obtain ⟨gap, hgap⟩ := ih rest.length (by rw [← hn, hcs, List.length_append]; omega) rest rfl
        rw [hcs]
        exact ⟨gap, scanFrom_token hform hr ▸ .token hform hr hgap⟩

theorem Scans.isLexeme {cs : List Char} {ts : List Token} {gap : List Char} (h : Scans cs ts gap) :
    ∀ t ∈ ts, t.IsLexeme := by
  induction h with
  | nil => simp
  | skip _ _ ih => exact ih
  | token h _ _ ih =>
    refine List.forall_mem_cons.2 ⟨?_, ih⟩
    rw [IsLexeme, String.toList_ofList]
    exact h

/-- The scanner gives tokens with the texts of their kinds. -/
theorem isLexeme_scan (s : String) : ∀ t ∈ scan s, t.IsLexeme := by
  obtain ⟨gap, hgap⟩ := exists_scans s.toList
  exact hgap.isLexeme

/-- A blank between tokens. -/
def IsGap (c : Char) : Prop := c = ' ' ∨ c = '\t'

/-- The text is made of tokens and blanks, and of nothing else. -/
inductive IsLaidOut : List Char → Prop
  | nil : IsLaidOut []
  | blank {c : Char} {cs : List Char} (h : IsGap c) (hs : IsLaidOut cs) : IsLaidOut (c :: cs)
  | token {kind : Kind} {ds rest : List Char} (h : kind.Form ds) (hs : IsLaidOut rest) :
      IsLaidOut (ds ++ rest)

theorem beginsNone_of_isGap {c : Char} (h : IsGap c) (cs : List Char) : BeginsNone (c :: cs) := by
  rw [beginsNone_iff]
  rcases h with rfl | rfl <;> rfl

/-- A number in front of a text that goes on with digits is the first part of a longer one. -/
theorem Scans.int_append {ds cs : List Char} {ts : List Token} {gap : List Char}
    (h : Kind.Form .int ds) (hs : Scans cs ts gap) : ∃ us, Scans (ds ++ cs) us gap := by
  by_cases hstops : Stops cs
  · exact ⟨_, .token h (fun _ => hstops) hs⟩
  · obtain ⟨d, hd, hdigit⟩ : ∃ d, cs.head? = some d ∧ Text.isDecimal d = true := by
      simpa [Stops] using hstops
    cases hs with
    | nil => cases hd
    | @skip c cs ts gap hnone hs =>
      obtain rfl := Option.some.inj hd
      have hform : Kind.Form .int (signed false [c]) :=
        .int false (List.cons_ne_nil _ _) (by simpa using hdigit)
      exact absurd ⟨cs, rfl⟩ (hnone _ _ hform)
    | @token kind es rest ts gap hform hr hs =>
      obtain ⟨e, es, rfl⟩ := List.exists_cons_of_ne_nil hform.ne_nil
      obtain ⟨rfl, hdigits⟩ := hform.digits hd hdigit
      rw [← List.append_assoc]
      exact ⟨_, .token (h.int_append hdigits) hr hs⟩

/-- A text is laid out in tokens and blanks if the scanner passes over nothing but blanks. -/
theorem isLaidOut_iff {cs : List Char} :
    IsLaidOut cs ↔ ∃ ts gap, Scans cs ts gap ∧ ∀ c ∈ gap, IsGap c := by
  constructor
  · intro h
    induction h with
    | nil => exact ⟨[], [], .nil, by simp⟩
    | blank h _ ih =>
      obtain ⟨ts, gap, hscan, hgap⟩ := ih
      exact ⟨ts, _, .skip (beginsNone_of_isGap h _) hscan, List.forall_mem_cons.2 ⟨h, hgap⟩⟩
    | @token kind ds rest h _ ih =>
      obtain ⟨ts, gap, hscan, hgap⟩ := ih
      by_cases hkind : kind = .int
      · subst hkind
        obtain ⟨us, hus⟩ := Scans.int_append h hscan
        exact ⟨us, gap, hus, hgap⟩
      · exact ⟨_, gap, .token h (fun he => absurd he hkind) hscan, hgap⟩
  · rintro ⟨ts, gap, hscan, hgap⟩
    induction hscan with
    | nil => exact .nil
    | skip _ _ ih =>
      obtain ⟨hc, hgap⟩ := List.forall_mem_cons.1 hgap
      exact .blank hc (ih hgap)
    | token h _ _ ih => exact .token h (ih hgap)

end Assay.Token
