import Assay.Proofs.Corpus.Tokens

/-!
# Phrases are read

A reader of expressions goes down the levels of binding and has fuel for that. A phrase is read as
the expression of its quantity, up to a mark that binds more loosely (`Stops`); a sum or product is
a chain that may go on, and of what it has used up to there only the length of the phrase counts. So
the text of a comparison is read as the expression of the comparison.
-/

namespace Assay.Corpus

open Expression (Tok tokens? readRest readAtom readMore)

def Sign.op : Sign → Term.Op
  | add => .add
  | sub => .sub
  | mul => .mul

def Quantity.expression : Quantity → Expression
  | numeral n => .const (.int n)
  | param i => .name (parameterName i)
  | neg q => .negative q.expression
  | join sign p q => .arith sign.op p.expression q.expression

def Relation.op : Relation → Term.Op
  | eq => .eq
  | ne => .ne
  | lt => .lt
  | le => .le
  | gt => .gt
  | ge => .ge

def Comparison.expression (c : Comparison) : Expression :=
  .compare c.relation.op c.left.expression c.right.expression

theorem binary_sign (sign : Sign) (a b : Expression) :
    Expression.binary (String.singleton sign.char) a b = .arith sign.op a b := by
  cases sign <;> rfl

theorem binary_relation (relation : Relation) (a b : Expression) :
    Expression.binary relation.text a b = .compare relation.op a b := by
  cases relation <;> rfl

/-- The tokens end here, or go on with a mark that is not one of these. -/
def Stops (marks : List String) (ts : List Tok) : Prop :=
  ts = [] ∨ ∃ m us, ts = .mark m :: us ∧ m ∉ marks

theorem Stops.mono {marks marks' : List String} {ts : List Tok} (h : Stops marks ts)
    (hsub : marks' ⊆ marks) :
    Stops marks' ts :=
  h.imp_right fun ⟨m, us, hts, hm⟩ => ⟨m, us, hts, fun hmem => hm (hsub hmem)⟩

variable {f level : Nat} {ts us rest : List Tok} {e last : Expression}

theorem readMore_of_stops (h : Stops ["(", "[", "."] rest) :
    readMore (f + 1) e rest = some (e, rest) := by
  rcases h with rfl | ⟨m, us, rfl, hm⟩
  · rfl
  · simp only [List.mem_cons, List.not_mem_nil, or_false, not_or] at hm
    rw [readMore]
    all_goals simp [hm]

theorem readRest_of_stops {chained : Bool} (h : Stops (Expression.binaryMarks level) rest) :
    readRest (f + 1) level chained e last rest = some (e, rest) := by
  rcases h with rfl | ⟨m, us, rfl, hm⟩
  · rfl
  · simp [readRest, hm]

/-- With so much fuel the tokens are read as a quantity, up to marks that bind more loosely. -/
def ReadsWhole (level : Nat) (marks : List String) (ts : List Tok) (q : Quantity) : Prop :=
  ∀ f rest, 13 * ts.length + (12 - level) ≤ f → Stops marks rest →
    Expression.read f level (ts ++ rest) = some (q.expression, rest)

/-- With so much fuel the tokens are read as the first operands of a chain, which may go on. -/
def ReadsChain (level : Nat) (marks : List String) (ts : List Tok) (q : Quantity) : Prop :=
  ∀ f rest, 13 * ts.length + (12 - level) ≤ f → Stops marks rest → ∃ g last, f ≤ g + ts.length ∧
    Expression.read f level (ts ++ rest) = readRest g level false q.expression last rest

variable {marks : List String} {p q : Quantity}

theorem read_succ (hlevel : level < 10) (hne : level ≠ 2) (ts : List Tok) (f : Nat) :
    Expression.read (f + 1) level ts =
      (Expression.read f (level + 1) ts).bind fun r => readRest f level false r.1 r.1 r.2 := by
  have hatom : ¬ Expression.atomLevel ≤ level := by simp [Expression.atomLevel]; omega
  have hten : level ≠ 10 := by omega
  conv_lhs => unfold Expression.read
  simp only [ge_iff_le, hatom, hne, hten, if_false]
  rfl

theorem ReadsChain.whole (hlevel : level < 12) (h : ReadsChain level marks ts q) :
    ReadsWhole level (Expression.binaryMarks level ++ marks) ts q := by
  intro f rest hf hrest
  obtain ⟨g, last, hg, hread⟩ := h f rest hf (hrest.mono (List.subset_append_right _ _))
  obtain ⟨g, rfl⟩ : ∃ g', g = g' + 1 := Nat.exists_eq_add_one.2 (by omega)
  rw [hread, readRest_of_stops (hrest.mono (List.subset_append_left _ _))]

theorem ReadsWhole.chain (hlevel : level < 10) (hne : level ≠ 2) (hts : ts ≠ [])
    (h : ReadsWhole (level + 1) marks ts q) : ReadsChain level marks ts q := by
  intro f rest hf hrest
  have hlength := List.length_pos_iff.2 hts
  obtain ⟨f, rfl⟩ : ∃ f', f = f' + 1 := Nat.exists_eq_add_one.2 (by omega)
  refine ⟨f, q.expression, by omega, ?_⟩
  rw [read_succ hlevel hne, h f rest (by omega) hrest]
  rfl

/-- A chain goes on with a mark of its level and another operand. -/
theorem ReadsChain.join {sign : Sign} (hlevel : level ≠ 3)
    (hmark : String.singleton sign.char ∈ Expression.binaryMarks level)
    (hstop : String.singleton sign.char ∉ marks) (hp : ReadsChain level marks ts p)
    (hq : ReadsWhole (level + 1) marks us q) :
    ReadsChain level marks (ts ++ .mark (String.singleton sign.char) :: us) (.join sign p q) := by
  intro f rest hf hrest
  rw [List.length_append, List.length_cons] at hf
  obtain ⟨g, last, hg, hread⟩ :=
    hp f (.mark (String.singleton sign.char) :: (us ++ rest)) (by omega)
    (.inr ⟨_, _, rfl, hstop⟩)
  obtain ⟨g, rfl⟩ : ∃ g', g = g' + 1 := Nat.exists_eq_add_one.2 (by omega)
  refine ⟨g, q.expression, by rw [List.length_append, List.length_cons]; omega, ?_⟩
  rw [List.append_assoc, List.cons_append, hread, readRest, if_pos (by simpa using hmark),
    hq g rest (by omega) hrest]
  simp only [Option.bind_eq_bind, Option.bind_some, hlevel, if_false, binary_sign]
  rfl

theorem ReadsWhole.looser (hlevel : level < 10) (hne : level ≠ 2) (hts : ts ≠ [])
    (h : ReadsWhole (level + 1) marks ts q) :
    ReadsWhole level (Expression.binaryMarks level ++ marks) ts q :=
  (h.chain hlevel hne hts).whole (by omega)

/-- A first token of a phrase. -/
inductive IsFirst : Rank → Tok → Prop
  | const (r : Rank) (d : Datum) : IsFirst r (.const d)
  | name (r : Rank) (x : String) : IsFirst r (.name x)
  | paren (r : Rank) : IsFirst r (.mark "(")
  | minus {r : Rank} (h : r ≠ .atom) : IsFirst r (.mark "-")

theorem IsFirst.of_ne_atom {r r' : Rank} {t : Tok} (h : IsFirst r t) (hr' : r' ≠ .atom) :
    IsFirst r' t := by
  cases h with
  | const d => exact .const r' d
  | name x => exact .name r' x
  | paren => exact .paren r'
  | minus => exact .minus hr'

theorem Phrase.first {r : Rank} (h : Phrase r ts q) : ∃ t us, ts = t :: us ∧ IsFirst r t := by
  induction h with
  | numeral n => exact ⟨_, _, rfl, .const _ _⟩
  | param i => exact ⟨_, _, rfl, .name _ _⟩
  | paren h => exact ⟨_, _, rfl, .paren _⟩
  | neg h => exact ⟨_, _, rfl, .minus (by decide)⟩
  | factor h ih | product h ih | sum h ih =>
    obtain ⟨t, us, rfl, ht⟩ := ih
    exact ⟨t, us, rfl, ht.of_ne_atom (by decide)⟩
  | join sign hp hq ihp =>
    obtain ⟨t, us, rfl, ht⟩ := ihp
    exact ⟨t, _, rfl, ht⟩

theorem Phrase.ne_nil {r : Rank} (h : Phrase r ts q) : ts ≠ [] := by
  obtain ⟨t, us, rfl, -⟩ := h.first
  exact List.cons_ne_nil t us

/-- A phrase is no negation. -/
theorem ReadsWhole.negation {r : Rank} (hphrase : Phrase r ts q) (h : ReadsWhole 3 marks ts q) :
    ReadsWhole 2 marks ts q := by
  intro f rest hf hrest
  obtain ⟨f, rfl⟩ : ∃ f', f = f' + 1 := Nat.exists_eq_add_one.2 (by omega)
  have hread := h f rest (by omega) hrest
  obtain ⟨t, us, rfl, ht⟩ := hphrase.first
  cases ht <;> exact hread

theorem ReadsWhole.neg (h : ReadsWhole 10 marks ts q) :
    ReadsWhole 10 marks (.mark "-" :: ts) (.neg q) := by
  intro f rest hf hrest
  rw [List.length_cons] at hf
  obtain ⟨f, rfl⟩ : ∃ f', f = f' + 1 := Nat.exists_eq_add_one.2 (by omega)
  calc Expression.read (f + 1) 10 (.mark "-" :: ts ++ rest)
    _ = (Expression.read f 10 (ts ++ rest)).bind fun r => some (.negative r.1, r.2) := rfl
    _ = some (.negative q.expression, rest) := by rw [h f rest (by omega) hrest]; rfl

/-- What begins like an atom and is followed by no power is read as it stands. -/
theorem read_factor {t : Tok} (ht : IsFirst .atom t)
    (hread : Expression.read f 11 (t :: us) = some (e, rest)) (hrest : Stops ["**"] rest) :
    Expression.read (f + 1) 10 (t :: us) = some (e, rest) := by
  conv_lhs => unfold Expression.read
  cases ht with
  | minus hne => exact absurd rfl hne
  | _ =>
    rcases hrest with rfl | ⟨m, vs, rfl, hm⟩
    · simp [Expression.atomLevel, hread]
    · have hpower : m ≠ "**" := by simpa using hm
      simp [Expression.atomLevel, hread, hpower]

theorem ReadsWhole.factor (hphrase : Phrase .atom ts q) (h : ReadsWhole 11 marks ts q) :
    ReadsWhole 10 ("**" :: marks) ts q := by
  intro f rest hf hrest
  obtain ⟨f, rfl⟩ : ∃ f', f = f' + 1 := Nat.exists_eq_add_one.2 (by omega)
  have hread := h f rest (by omega) (hrest.mono (List.subset_cons_self _ _))
  obtain ⟨t, us, rfl, ht⟩ := hphrase.first
  exact read_factor ht hread (hrest.mono (by simp))

theorem readsWhole_atom {t : Tok}
    (h : ∀ f rest, readAtom (f + 1) (t :: rest) = some (q.expression, rest)) :
    ReadsWhole 11 ["(", "[", "."] [t] q := by
  intro f rest hf hrest
  rw [List.length_singleton] at hf
  obtain ⟨f, rfl⟩ : ∃ f', f = f' + 2 := Nat.exists_eq_add_of_le' (by omega)
  calc Expression.read (f + 2) 11 ([t] ++ rest)
    _ = (readAtom (f + 1) (t :: rest)).bind fun r => readMore (f + 1) r.1 r.2 := rfl
    _ = some (q.expression, rest) := by rw [h]; exact readMore_of_stops hrest

theorem ReadsWhole.paren (h : ReadsWhole 0 marks ts q) (hclose : ")" ∉ marks) :
    ReadsWhole 11 ["(", "[", "."] (.mark "(" :: (ts ++ [.mark ")"])) q := by
  intro f rest hf hrest
  rw [List.length_cons, List.length_append, List.length_singleton] at hf
  obtain ⟨f, rfl⟩ : ∃ f', f = f' + 2 := Nat.exists_eq_add_of_le' (by omega)
  have hinner := h f (.mark ")" :: rest) (by omega) (.inr ⟨_, _, rfl, hclose⟩)
  have hatom : readAtom (f + 1) (.mark "(" :: (ts ++ .mark ")" :: rest)) =
      some (q.expression, rest) := by
    rw [readAtom, hinner]
    rfl
  calc Expression.read (f + 2) 11 (.mark "(" :: (ts ++ [.mark ")"]) ++ rest)
    _ = (readAtom (f + 1) (.mark "(" :: (ts ++ .mark ")" :: rest))).bind fun r =>
        readMore (f + 1) r.1 r.2 := by
      rw [List.cons_append, List.append_assoc]; rfl
    _ = some (q.expression, rest) := by rw [hatom]; exact readMore_of_stops hrest

/-- The marks that do not end an operand of a product. -/
def factorMarks : List String := ["**", "(", "[", "."]

/-- The marks that do not end an operand of a sum. -/
def productMarks : List String := Expression.binaryMarks 9 ++ factorMarks

/-- How a phrase of each rank is read. -/
def Rank.Reads : Rank → List Tok → Quantity → Prop
  | .sum => ReadsChain 8 productMarks
  | .product => ReadsChain 9 factorMarks
  | .factor => ReadsWhole 10 factorMarks
  | .atom => ReadsWhole 11 ["(", "[", "."]

/-- The marks that do not end a side of a comparison. -/
def sideMarks : List String :=
  Expression.binaryMarks 4 ++ (Expression.binaryMarks 5 ++ (Expression.binaryMarks 6 ++
    (Expression.binaryMarks 7 ++ (Expression.binaryMarks 8 ++ productMarks))))

theorem ReadsChain.side (hphrase : Phrase .sum ts q) (h : ReadsChain 8 productMarks ts q) :
    ReadsWhole 4 sideMarks ts q := by
  have hne := hphrase.ne_nil
  have h8 := h.whole (by decide)
  have h7 := h8.looser (by decide) (by decide) hne
  have h6 := h7.looser (by decide) (by decide) hne
  have h5 := h6.looser (by decide) (by decide) hne
  exact h5.looser (by decide) (by decide) hne

theorem Phrase.reads {r : Rank} (h : Phrase r ts q) : r.Reads ts q := by
  induction h with
  | numeral n => exact readsWhole_atom fun _ _ => rfl
  | param i => exact readsWhole_atom fun _ _ => rfl
  | paren h ih =>
    have hne := h.ne_nil
    have h3 := (ih.side h).looser (by decide) (by decide) hne
    have h1 := (h3.negation h).looser (by decide) (by decide) hne
    exact (h1.looser (by decide) (by decide) hne).paren (by decide)
  | neg h ih => exact ih.neg
  | factor h ih => exact ih.factor h
  | product h ih => exact ih.chain (by decide) (by decide) h.ne_nil
  | sum h ih => exact (ih.whole (by decide)).chain (by decide) (by decide) h.ne_nil
  | join sign hp hq ihp ihq =>
    cases sign with
    | add => exact ihp.join (by decide) (by decide) (by decide) (ihq.whole (by decide))
    | sub => exact ihp.join (by decide) (by decide) (by decide) (ihq.whole (by decide))
    | mul => exact ihp.join (by decide) (by decide) (by decide) ihq

theorem Phrase.not_isBreak {r : Rank} (h : Phrase r ts q) : ∀ t ∈ ts, t.isBreak = false := by
  induction h with
  | numeral n => simp [Tok.isBreak]
  | param i => simp [Tok.isBreak]
  | paren h ih => simpa [Tok.isBreak, or_imp, forall_and] using ih
  | neg h ih => simpa [Tok.isBreak] using ih
  | factor h ih => exact ih
  | product h ih => exact ih
  | sum h ih => exact ih
  | join sign hp hq ihp ihq =>
    have hsign : Tok.isBreak (.mark (String.singleton sign.char)) = false := by
      cases sign <;> decide
    simpa [or_imp, forall_and, hsign] using ⟨ihp, ihq⟩

theorem joined_eq_self (h : ∀ t ∈ ts, t.isBreak = false) (depth : Nat) :
    Expression.joined depth ts = ts := by
  induction ts generalizing depth with
  | nil => rfl
  | cons t ts ih =>
    have hrest := ih fun u hu => h u (by simp [hu])
    have ht := h t (by simp)
    unfold Expression.joined
    split
    next => rw [hrest]
    next => rw [hrest]
    next => rw [hrest]
    next => rw [hrest]
    next => rw [if_neg (by simp [ht]), hrest]

theorem trimmed_eq_self (h : ∀ t ∈ ts, t.isBreak = false) : Expression.trimmed ts = ts := by
  have hdrop : ∀ us : List Tok, (∀ t ∈ us, t.isBreak = false) → us.dropWhile Tok.isBreak = us := by
    intro us hus
    cases us with
    | nil => rfl
    | cons u us => simp [hus u (by simp)]
  rw [Expression.trimmed, hdrop ts h, hdrop ts.reverse (by simpa using h), List.reverse_reverse]

theorem Comparison.read_eq {c : Comparison} (hts : Phrase .sum ts c.left)
    (hus : Phrase .sum us c.right) (hf : 13 * (ts.length + us.length) + 24 ≤ f) :
    Expression.read f 0 (ts ++ .mark c.relation.text :: us) = some (c.expression, []) := by
  obtain ⟨f, rfl⟩ : ∃ f', f = f' + 5 := Nat.exists_eq_add_of_le' (by omega)
  have hmark : c.relation.text ∈ Expression.binaryMarks 3 := by cases c.relation <;> decide
  have hstop : c.relation.text ∉ sideMarks := by cases c.relation <;> decide
  have hleft :=
    (hts.reads.side hts) (f + 1) (.mark c.relation.text :: us) (by omega) (.inr ⟨_, _, rfl, hstop⟩)
  have hright := (hus.reads.side hus) f [] (by omega) (.inl rfl)
  rw [List.append_nil] at hright
  obtain ⟨f, rfl⟩ : ∃ f', f = f' + 1 := Nat.exists_eq_add_of_le' (by omega)
  have h3 : Expression.read (f + 3) 3 (ts ++ .mark c.relation.text :: us) =
      some (c.expression, []) := by
    rw [read_succ (by decide) (by decide), hleft, Option.bind_some, readRest,
      if_pos (by simpa using hmark), hright]
    simp only [Option.bind_eq_bind, Option.bind_some, if_true, Bool.false_eq_true, if_false,
      binary_relation]
    exact readRest_of_stops (.inl rfl)
  have h2 : Expression.read (f + 4) 2 (ts ++ .mark c.relation.text :: us) =
      some (c.expression, []) := by
    obtain ⟨t, vs, rfl, ht⟩ := hts.first
    cases ht <;> exact h3
  have h1 : Expression.read (f + 5) 1 (ts ++ .mark c.relation.text :: us) =
      some (c.expression, []) := by
    rw [read_succ (by decide) (by decide), h2, Option.bind_some]
    exact readRest_of_stops (.inl rfl)
  rw [read_succ (by decide) (by decide), h1, Option.bind_some]
  exact readRest_of_stops (.inl rfl)

/-- The text of a comparison is read as its expression. -/
theorem Comparison.parse?_eq {s : List Char} {c : Comparison} (h : c.IsText s)
    (hleft : c.left.IsShort) (hright : c.right.IsShort) :
    Expression.parse? (String.ofList s) = some c.expression := by
  obtain ⟨l, r, m, n, hl, hr, rfl⟩ := h
  obtain ⟨ts, hts, hcuts⟩ := hl.cuts hleft
  obtain ⟨us, hus, hcuts'⟩ := hr.cuts hright
  have hrelation : Cuts Opens c.relation.text.toList [.mark c.relation.text] := by
    cases c.relation <;> exact cuts_mark (by decide)
  have hopens : ∀ rest, Opens (gap n ++ r ++ rest) := by
    intro rest
    simpa only [List.append_assoc] using (hr.opens rest).append_gap n
  have hends : ∀ rest, Ends (gap m ++ (c.relation.text.toList ++ (gap n ++ r)) ++ rest) := by
    intro rest
    simpa only [List.append_assoc]
      using (ends_relation c.relation (gap n ++ (r ++ rest))).append_gap m
  have hside := (cuts_gap (fun _ => True) n).append hcuts' fun _ _ => trivial
  have hmiddle :=
    (cuts_gap (fun _ => True) m).append (hrelation.append hside fun rest _ => hopens rest)
    fun _ _ => trivial
  have htokens := hcuts.append hmiddle (fun rest _ => hends rest) [] nofun
  simp only [List.append_nil, List.nil_append, List.singleton_append, tokens?,
    Option.map_some] at htokens
  have hbreak : ∀ t ∈ ts ++ .mark c.relation.text :: us, t.isBreak = false := by
    have hmark : Tok.isBreak (.mark c.relation.text) = false := by cases c.relation <;> decide
    simpa [or_imp, forall_and, hmark] using ⟨hts.not_isBreak, hus.not_isBreak⟩
  rw [Expression.parse?, String.toList_ofList, htokens]
  simp only [Option.bind_eq_bind, Option.bind_some, joined_eq_self hbreak, trimmed_eq_self hbreak]
  rw [Comparison.read_eq hts hus (by simp; omega)]

end Assay.Corpus
