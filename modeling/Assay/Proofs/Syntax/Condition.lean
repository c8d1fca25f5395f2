import Assay.Proofs.Symbolic.Terms
import Assay.Proofs.Syntax.Expression
import Assay.Proofs.Text
import Assay.Syntax.Condition

/-!
# Conditions mean what the expressions mean

The condition of an expression is a plain value as long as no name is met, and a term from then on.
`IsNumber` and `IsTruth` say what an operand stands for; each operation keeps them, and so the
translation of a whole tree has the value of its expression.
-/

namespace Assay.Text

/-- Reading passes over underscores and takes the digits one by one. Below the digits of other
scripts nothing else is read. -/
theorem eq_of_digitsOf? {prev : Bool} {cs : List Char} {ds : List Nat}
    (hcs : ∀ c ∈ cs, c.toNat < 0x660) (h : digitsOf? prev cs = some ds) :
    (∀ c ∈ cs, c.isDigit = true ∨ c = '_') ∧
      ds = (cs.filter (· ≠ '_')).map fun c => c.toNat - 48 := by
  induction cs generalizing prev ds with
  | nil =>
    simp only [digitsOf?] at h
    split at h
    · obtain rfl := Option.some.inj h
      exact ⟨by simp, rfl⟩
    · cases h
  | cons c cs ih =>
    have hrest : ∀ x ∈ cs, x.toNat < 0x660 := fun x hx => hcs x (by simp [hx])
    by_cases hc : c = '_'
    · subst hc
      cases prev with
      | false => simp [digitsOf?] at h
      | true =>
        obtain ⟨hall, hds⟩ := ih hrest (by simpa [digitsOf?] using h)
        exact ⟨by simpa using hall, by simpa using hds⟩
    · cases hdigit : c.isDigit with
      | false =>
        have hlow := hcs c (by simp)
        simp [digitsOf?, hc, digit?, hdigit, hlow] at h
      | true =>
        simp only [digitsOf?, hc, if_false, digit?_of_isDigit hdigit, Option.map_eq_some_iff] at h
        obtain ⟨es, hes, rfl⟩ := h
        obtain ⟨hall, rfl⟩ := ih hrest hes
        exact ⟨by simpa [hdigit] using hall, by simp [hc]⟩

end Assay.Text

namespace Assay.Syntax

open Assay.Symbolic (arithOp)

section Literal

variable {digits mark : List Char} {text : String} {d : Datum}

theorem allowed_of_fraction? {r : Int × Nat} (h : Operand.fraction? text = some r) {c : Char}
    (hc : c ∈ text.toList.dropWhile (· = ' ')) : c.isDigit = true ∨ c ∈ "/- \n.eE+".toList := by
  simp only [Operand.fraction?] at h
  split at h
  next hall =>
    have hmem := List.all_eq_true.1 hall c hc
    simpa using hmem
  next => cases h

theorem IsNumeral.char (hd : IsNumeral digits)
    (hm : mark = [] ∨ mark = ['l'] ∨ mark = ['L']) {c : Char} (hc : c ∈ digits ++ mark) :
    c.isDigit = true ∨ c = '_' ∨ c = 'l' ∨ c = 'L' := by
  rcases List.mem_append.1 hc with hc | hc
  · rcases hd.chars c hc with h | h
    · exact .inl h
    · exact .inr (.inl h)
  · rcases hm with rfl | rfl | rfl
    · simp at hc
    · exact .inr (.inr (.inl (List.mem_singleton.1 hc)))
    · exact .inr (.inr (.inr (List.mem_singleton.1 hc)))

theorem mark_eq_nil {P : Char → Prop} (hm : mark = [] ∨ mark = ['l'] ∨ mark = ['L'])
    (h : ∀ c ∈ digits ++ mark, P c) (hl : ¬ P 'l') (hL : ¬ P 'L') : mark = [] := by
  rcases hm with rfl | rfl | rfl
  · rfl
  · exact absurd (h 'l' (by simp)) hl
  · exact absurd (h 'L' (by simp)) hL

theorem eq_of_readInt (hd : IsNumeral digits) (hm : mark = [] ∨ mark = ['l'] ∨ mark = ['L'])
    (htext : text.toList = digits ++ mark) {n : Int} (h : Text.readInt text = .ok n) :
    n = literalValue digits := by
  obtain ⟨d₀, ds, hfirst, hd₀, -⟩ := hd.first
  have hchar : ∀ c ∈ text.toList, c.toNat < 0x660 ∧ Text.isBlank c = false := by
    intro c hc
    rcases hd.char hm (htext ▸ hc) with h | rfl | rfl | rfl
    · have h9 := (Char.isDigit_iff_toNat.1 h).2
      have : '9'.toNat = 57 := rfl
      exact ⟨by omega, Text.isBlank_of_isDigit h⟩
    · decide
    · decide
    · decide
  have hsign : Text.takeSign text.toList = (false, text.toList) := by
    rw [htext, hfirst]
    exact Text.takeSign_of_isDecimal (Text.isDecimal_of_isDigit hd₀) _
  rw [Text.readInt, Text.dropEnds_eq_self fun c hc => (hchar c hc).2, hsign] at h
  dsimp only at h
  split at h
  next => cases h
  next es hes =>
    split at h
    · cases h
    · obtain rfl := Except.ok.inj h
      obtain ⟨hall, rfl⟩ := Text.eq_of_digitsOf? (fun c hc => (hchar c hc).1) hes
      rw [htext] at hall
      obtain rfl := mark_eq_nil hm hall (by decide) (by decide)
      rw [htext, List.append_nil, literalValue, Text.numberOf, Text.numberOf_map]
      rfl

/-- A fraction has neither underscores nor a mark, so a literal that reads as one is a whole
number. -/
theorem readInt_of_realOf (hd : IsNumeral digits) (hm : mark = [] ∨ mark = ['l'] ∨ mark = ['L'])
    (htext : text.toList = digits ++ mark) {t : Term} (h : Operand.realOf text = .ok t) :
    ∃ n, Text.readInt text = .ok n := by
  obtain ⟨d₀, ds, hfirst, hd₀, -⟩ := hd.first
  have hdrop : text.toList.dropWhile (· = ' ') = digits ++ mark := by
    have hne : d₀ ≠ ' ' := by
      rintro rfl
      exact absurd hd₀ (by decide)
    rw [htext, hfirst]
    simp [hne]
  have hdigit : ∀ c ∈ digits ++ mark, c.isDigit = true := by
    unfold Operand.realOf at h
    split at h
    next hfraction =>
      intro c hc
      have hallowed := allowed_of_fraction? hfraction (hdrop ▸ hc)
      rcases hd.char hm hc with h | rfl | rfl | rfl
      · exact h
      · exact absurd hallowed (by decide)
      · exact absurd hallowed (by decide)
      · exact absurd hallowed (by decide)
    next => cases h
  obtain rfl := mark_eq_nil hm hdigit (by decide) (by decide)
  rw [List.append_nil] at htext hdigit
  have hfilter : digits.filter (· ≠ '_') = digits := by
    refine List.filter_eq_self.2 fun c hc => decide_eq_true ?_
    rintro rfl
    exact absurd (hdigit '_' hc) (by decide)
  have hshort := hd.short
  rw [hfilter] at hshort
  exact ⟨_,
    @Text.readInt_eq text false digits (by simpa using htext) (by simp [hfirst]) hdigit hshort⟩

/-- A literal that is read at all is read as its number. -/
theorem literal_eq (hd : IsNumeral digits) (hm : mark = [] ∨ mark = ['l'] ∨ mark = ['L'])
    (htext : text.toList = digits ++ mark) (h : literal text = .ok d) :
    d = .int (literalValue digits) := by
  unfold literal at h
  cases hr : Text.readInt text with
  | ok n =>
    rw [hr] at h
    obtain rfl := Except.ok.inj h
    rw [eq_of_readInt hd hm htext hr]
  | error e =>
    rw [hr] at h
    obtain ⟨t, ht, -⟩ := bind_eq_ok.1 h
    obtain ⟨n, hn⟩ := readInt_of_realOf hd hm htext ht
    rw [hn] at hr
    cases hr

end Literal

section Operands

variable {σ : Assignment} {a b d : Datum} {x y : Int} {p q : Bool}

inductive IsNumber (σ : Assignment) : Datum → Int → Prop
  | plain (n : Int) : IsNumber σ (.int n) n
  | term {t : Term} {n : Int} (hkind : t.kind = .int) (hvalue : t.intValue? σ = some n) :
      IsNumber σ (.term t) n

inductive IsTruth (σ : Assignment) : Datum → Bool → Prop
  | plain (b : Bool) : IsTruth σ (.bool b) b
  | term {t : Term} {b : Bool} (hkind : t.kind = .bool) (hnone : t.intValue? σ = none)
      (hvalue : t.truthValue? σ = some b) : IsTruth σ (.term t) b

def IsTerm (d : Datum) : Prop := ∃ t, d = .term t

theorem intValue?_truncated {op : Arith} {s t : Term} (hs : s.intValue? σ = some x)
    (ht : t.intValue? σ = some y) (hdiv : op.divides = true → 0 ≤ x ∧ y ≠ 0) :
    ∃ z, truncated op x y = some z ∧ (Term.bin (arithOp op) s t).intValue? σ = some z := by
  cases op with
  | div =>
    obtain ⟨hx, hy⟩ := hdiv rfl
    refine ⟨x.tdiv y, by simp [truncated, hy], ?_⟩
    simp [arithOp, Term.intValue?, hs, ht, hy, Int.tdiv_eq_ediv_of_nonneg hx]
  | rem =>
    obtain ⟨hx, hy⟩ := hdiv rfl
    refine ⟨x.tmod y, by simp [truncated, hy], ?_⟩
    simp [arithOp, Term.intValue?, hs, ht, hy, Int.tmod_eq_emod_of_nonneg hx]
  | _ => exact ⟨_, rfl, by simp [arithOp, Term.intValue?, hs, ht]⟩

theorem kind_arith {op : Arith} {s t : Term} (hs : s.kind = .int) (ht : t.kind = .int) :
    (Term.bin (arithOp op) s t).kind = .int := by
  cases op <;> simp [arithOp, Term.kind, Term.Op.isLogical, hs, ht]

theorem lift_int {n : Int} {t : Term} :
    Operand.lift .int (.int n) = .ok t ↔ Text.isWritable n = true ∧ t = .int n := by
  rw [Operand.lift]
  split
  next hn => simp [hn, eq_comm]
  next hn => simp [hn]

theorem termArith_eq {op : Arith} {s t : Term} (hs : s.kind = .int) (ht : t.kind = .int) :
    Operand.termArith (arithOp op) s t = .ok (.term (.bin (arithOp op) s t)) := by
  simp [Operand.termArith, Operand.unify, hs, ht]

theorem arith_term_int (op : Arith) {s : Term} {n : Int} (hs : s.kind = .int)
    (hn : Text.isWritable n = true) :
    Operand.arith (arithOp op) (.term s) (.int n) = .ok (.term (.bin (arithOp op) s (.int n))) := by
  rw [Operand.arith, if_neg (by simp [hs]), hs, lift_int.2 ⟨hn, rfl⟩, ok_bind, termArith_eq hs rfl]
  nofun

theorem arith_int_term (op : Arith) {t : Term} {n : Int} (ht : t.kind = .int)
    (hn : Text.isWritable n = true) :
    Operand.arith (arithOp op) (.int n) (.term t) = .ok (.term (.bin (arithOp op) (.int n) t)) := by
  rw [Operand.arith, if_neg (by simp [ht]), ht, lift_int.2 ⟨hn, rfl⟩, ok_bind, termArith_eq rfl ht]
  nofun

/-- Arithmetic on operands is Java's, as long as a division has a term among its operands. -/
theorem arith_isNumber {op : Arith} (ha : IsNumber σ a x) (hb : IsNumber σ b y)
    (hdiv : op.divides = true → 0 ≤ x ∧ y ≠ 0 ∧ (IsTerm a ∨ IsTerm b))
    (h : Operand.arith (arithOp op) a b = .ok d) :
    (∃ z, truncated op x y = some z ∧ IsNumber σ d z) ∧ (IsTerm a ∨ IsTerm b → IsTerm d) := by
  have hvalues : op.divides = true → 0 ≤ x ∧ y ≠ 0 := fun h => ⟨(hdiv h).1, (hdiv h).2.1⟩
  -- three of the four cases come down to two terms
  have hterm : ∀ {s t : Term}, s.kind = .int → t.kind = .int → s.intValue? σ = some x →
      t.intValue? σ = some y →
      Operand.termArith (arithOp op) s t = .ok d →
      (∃ z, truncated op x y = some z ∧ IsNumber σ d z) ∧ (IsTerm a ∨ IsTerm b → IsTerm d) := by
    intro s t hs ht hx hy h
    rw [termArith_eq hs ht] at h
    obtain rfl := Except.ok.inj h
    obtain ⟨z, hz, hvalue⟩ := intValue?_truncated hx hy hvalues
    exact ⟨⟨z, hz, .term (kind_arith hs ht) hvalue⟩, fun _ => ⟨_, rfl⟩⟩
  cases ha with
  | @term s _ hs hx =>
    cases hb with
    | @term t _ ht hy => exact hterm hs ht hx hy h
    | plain =>
      rw [Operand.arith, if_neg (by simp [hs]), hs] at h
      · obtain ⟨u, hu, h⟩ := bind_eq_ok.1 h
        obtain ⟨-, rfl⟩ := lift_int.1 hu
        exact hterm hs rfl hx rfl h
      · nofun
  | plain =>
    cases hb with
    | @term t _ ht hy =>
      rw [Operand.arith, if_neg (by simp [ht]), ht] at h
      · obtain ⟨u, hu, h⟩ := bind_eq_ok.1 h
        obtain ⟨-, rfl⟩ := lift_int.1 hu
        exact hterm (s := .int x) rfl ht rfl hy h
      · nofun
    | plain =>
      have hplain : ¬ (IsTerm (.int x) ∨ IsTerm (.int y)) := by simp [IsTerm]
      refine ⟨?_, fun h => absurd h hplain⟩
      cases op with
      | div => exact absurd (hdiv rfl).2.2 hplain
      | rem => exact absurd (hdiv rfl).2.2 hplain
      | _ =>
        obtain rfl := Except.ok.inj h
        exact ⟨_, rfl, .plain _⟩

theorem isTruth_bin {o : Term.Op} {s t : Term} (hs : s.intValue? σ = some x)
    (ht : t.intValue? σ = some y) (hc : Term.compareInts o x y = some p) :
    IsTruth σ (.term (.bin o s t)) p := by
  have hvalue := Term.truthValue?_bin hs ht hc
  cases o with
  | eq | ne | lt | le | gt | ge => exact .term rfl rfl hvalue
  | _ => cases hc

theorem plainCompare_int {o : Term.Op} (hc : Term.compareInts o x y = some p) :
    Operand.plainCompare o (.int x) (.int y) = .ok p := by
  cases o with
  | eq =>
    obtain rfl := Option.some.inj hc
    rfl
  | ne =>
    obtain rfl := Option.some.inj hc
    simp [Operand.plainCompare, bne, BEq.beq, Datum.same]
  | lt | le | gt | ge =>
    obtain rfl := Option.some.inj hc
    rfl
  | _ => cases hc

theorem mixedCompare_int {t u : Term} (ht : t.kind = .int) {o : Term.Op} {n : Int} :
    Operand.mixedCompare o t (.int n) = .ok u ↔ Text.isWritable n = true ∧
    u = .bin o t (.int n) := by
  have hunify : Operand.unify t (.int n) = .ok (t, .int n) := by
    simp [Operand.unify, ht, Term.kind]
  rw [Operand.mixedCompare, if_neg (by simp [ht]), ht, bind_eq_ok]
  constructor
  · rintro ⟨v, hv, h⟩
    obtain ⟨hn, rfl⟩ := lift_int.1 hv
    rw [hunify] at h
    exact ⟨hn, (Except.ok.inj h).symm⟩
  · rintro ⟨hn, rfl⟩
    refine ⟨.int n, lift_int.2 ⟨hn, rfl⟩, ?_⟩
    rw [hunify]
    rfl

/-- A comparison of numbers, whichever way round its term is built. -/
theorem compare_isNumber {o : Term.Op} (ha : IsNumber σ a x) (hb : IsNumber σ b y)
    (hc : Term.compareInts o x y = some p) (h : Operand.compare o a b = .ok d) :
    IsTruth σ d p ∧ (IsTerm a ∨ IsTerm b → IsTerm d) := by
  cases ha with
  | @term s _ hs hx =>
    cases hb with
    | @term t _ ht hy =>
      obtain ⟨u, hu, h⟩ := bind_eq_ok.1 h
      obtain rfl := Except.ok.inj h
      refine ⟨?_, fun _ => ⟨u, rfl⟩⟩
      unfold Operand.termCompare at hu
      rw [if_neg (by simp [hs])] at hu
      -- a numeral is moved to the front, and the comparison turned around
      split at hu
      next =>
        simp only [Operand.unify, hs, ht] at hu
        obtain rfl := Except.ok.inj hu
        exact isTruth_bin hy hx (Term.compareInts_swapped hc)
      next =>
        simp only [Operand.unify, hs, ht] at hu
        obtain rfl := Except.ok.inj hu
        exact isTruth_bin hx hy hc
    | plain =>
      obtain ⟨u, hu, h⟩ := bind_eq_ok.1 h
      obtain rfl := Except.ok.inj h
      obtain ⟨-, rfl⟩ := (mixedCompare_int hs).1 hu
      exact ⟨isTruth_bin hx rfl hc, fun _ => ⟨_, rfl⟩⟩
  | plain =>
    cases hb with
    | @term t _ ht hy =>
      obtain ⟨u, hu, h⟩ := bind_eq_ok.1 h
      obtain rfl := Except.ok.inj h
      obtain ⟨-, rfl⟩ := (mixedCompare_int ht).1 hu
      exact ⟨isTruth_bin hy rfl (Term.compareInts_swapped hc), fun _ => ⟨_, rfl⟩⟩
    | plain =>
      obtain ⟨u, hu, h⟩ := bind_eq_ok.1 h
      obtain rfl := Except.ok.inj h
      obtain rfl := Except.ok.inj ((plainCompare_int hc).symm.trans hu)
      exact ⟨.plain p, by simp [IsTerm]⟩

def equality (same : Bool) : Term.Op := if same then .eq else .ne

theorem isTruth_equality {same : Bool} {s t : Term} (hs : s.intValue? σ = none)
    (hp : s.truthValue? σ = some p) (hq : t.truthValue? σ = some q) :
    IsTruth σ (.term (.bin (equality same) s t)) (decide (p = q) == same) := by
  cases same with
  | true => exact .term rfl rfl (by simp [equality, Term.truthValue?, hs, hp, hq])
  | false => exact .term rfl rfl (by simp [equality, Term.truthValue?, hs, hp, hq])

theorem mixedCompare_truth {same : Bool} {t : Term} (ht : t.kind = .bool) (q : Bool) :
    Operand.mixedCompare (equality same) t (.bool q) = .ok (.bin (equality same) t (.truth q)) := by
  cases same <;> simp [equality, Operand.mixedCompare, Operand.isEquality, Operand.unify,
    Operand.lift, ht, Term.kind]

theorem compare_isTruth {same : Bool} (ha : IsTruth σ a p) (hb : IsTruth σ b q)
    (h : Operand.compare (equality same) a b = .ok d) :
    IsTruth σ d (decide (p = q) == same) ∧ (IsTerm a ∨ IsTerm b → IsTerm d) := by
  cases ha with
  | @term s _ hs hnone hp =>
    cases hb with
    | @term t _ ht hnone' hq =>
      obtain ⟨u, hu, h⟩ := bind_eq_ok.1 h
      obtain rfl := Except.ok.inj h
      have hu' : Operand.termCompare (equality same) s t = .ok (.bin (equality same) s t) := by
        cases same <;> simp [equality, Operand.termCompare, Operand.isExchanged, Operand.isEquality,
          Operand.unify, hs, ht]
      obtain rfl := Except.ok.inj (hu'.symm.trans hu)
      exact ⟨isTruth_equality hnone hp hq, fun _ => ⟨_, rfl⟩⟩
    | plain =>
      obtain ⟨u, hu, h⟩ := bind_eq_ok.1 h
      obtain rfl := Except.ok.inj h
      obtain rfl := Except.ok.inj ((mixedCompare_truth hs q).symm.trans hu)
      exact ⟨isTruth_equality hnone hp rfl, fun _ => ⟨_, rfl⟩⟩
  | plain =>
    cases hb with
    | @term t _ ht hnone hq =>
      have hswapped : (equality same).swapped = equality same := by
        cases same <;> rfl
      obtain ⟨u, hu, h⟩ := bind_eq_ok.1 h
      obtain rfl := Except.ok.inj h
      rw [hswapped, mixedCompare_truth ht] at hu
      obtain rfl := Except.ok.inj hu
      rw [decide_eq_decide.2 (eq_comm (a := p))]
      exact ⟨isTruth_equality hnone hq rfl, fun _ => ⟨_, rfl⟩⟩
    | plain =>
      obtain ⟨u, hu, h⟩ := bind_eq_ok.1 h
      obtain rfl := Except.ok.inj h
      have hu' : Operand.plainCompare (equality same) (.bool p) (.bool q) =
          .ok (decide (p = q) == same) := by
        cases same <;> cases p <;> cases q <;> rfl
      obtain rfl := Except.ok.inj (hu'.symm.trans hu)
      exact ⟨.plain _, by simp [IsTerm]⟩

theorem truthValue?_truthOf {t : Term} (ha : IsTruth σ a p) (h : Operand.truthOf a = .ok t) :
    t.truthValue? σ = some p := by
  cases ha with
  | plain =>
    obtain rfl := Except.ok.inj h
    rfl
  | term hkind hnone hvalue =>
    rw [Operand.truthOf, if_pos hkind] at h
    obtain rfl := Except.ok.inj h
    exact hvalue

theorem isTerm_joined {o : Term.Op} (h : Operand.joined o a b = .ok d) : IsTerm d := by
  obtain ⟨s, -, h⟩ := bind_eq_ok.1 h
  obtain ⟨t, -, h⟩ := bind_eq_ok.1 h
  exact ⟨_, (Except.ok.inj h).symm⟩

theorem exists_of_joined {o : Term.Op} (ha : IsTruth σ a p) (hb : IsTruth σ b q)
    (h : Operand.joined o a b = .ok d) :
    ∃ s t, d = .term (.bin o s t) ∧ s.truthValue? σ = some p ∧ t.truthValue? σ = some q := by
  obtain ⟨s, hs, h⟩ := bind_eq_ok.1 h
  obtain ⟨t, ht, h⟩ := bind_eq_ok.1 h
  exact ⟨s, t, (Except.ok.inj h).symm, truthValue?_truthOf ha hs, truthValue?_truthOf hb ht⟩

theorem joined_and (ha : IsTruth σ a p) (hb : IsTruth σ b q) (h : Operand.joined .and a b = .ok d) :
    IsTruth σ d (p && q) := by
  obtain ⟨s, t, rfl, hp, hq⟩ := exists_of_joined ha hb h
  exact .term rfl rfl (by simp [Term.truthValue?, hp, hq])

theorem joined_or (ha : IsTruth σ a p) (hb : IsTruth σ b q) (h : Operand.joined .or a b = .ok d) :
    IsTruth σ d (p || q) := by
  obtain ⟨s, t, rfl, hp, hq⟩ := exists_of_joined ha hb h
  exact .term rfl rfl (by simp [Term.truthValue?, hp, hq])

/-- Where plain truth values are joined at all, they become a term that says what the connective
says. -/
structure JoinsTruths (join : Operand.Join) : Prop where
  and : ∀ {p q d}, join .and (.bool p) (.bool q) = .ok d → IsTerm d ∧ ∀ σ, IsTruth σ d (p && q)
  or : ∀ {p q d}, join .or (.bool p) (.bool q) = .ok d → IsTerm d ∧ ∀ σ, IsTruth σ d (p || q)

theorem joinsTruths_refused : JoinsTruths Operand.refused := ⟨nofun, nofun⟩

theorem joinsTruths_joined : JoinsTruths Operand.joined where
  and h := ⟨isTerm_joined h, fun _ => joined_and (.plain _) (.plain _) h⟩
  or h := ⟨isTerm_joined h, fun _ => joined_or (.plain _) (.plain _) h⟩

/-- Two truth values are both plain, or are joined to a term. -/
theorem connect_cases (join : Operand.Join) (o : Term.Op) (ha : IsTruth σ a p)
    (hb : IsTruth σ b q) :
    Operand.connect join o a b = Operand.joined o a b ∨
      Operand.connect join o a b = join o (.bool p) (.bool q) := by
  cases ha with
  | term => exact .inl rfl
  | plain =>
    cases hb with
    | term => exact .inl rfl
    | plain => exact .inr rfl

theorem and_isTruth {join : Operand.Join} (hjoin : JoinsTruths join) (ha : IsTruth σ a p)
    (hb : IsTruth σ b q) (h : Operand.connect join .and a b = .ok d) :
    IsTerm d ∧ IsTruth σ d (p && q) := by
  rcases connect_cases join .and ha hb with heq | heq
  · rw [heq] at h
    exact ⟨isTerm_joined h, joined_and ha hb h⟩
  · exact (hjoin.and (heq.symm.trans h)).imp_right (· σ)

theorem or_isTruth {join : Operand.Join} (hjoin : JoinsTruths join) (ha : IsTruth σ a p)
    (hb : IsTruth σ b q) (h : Operand.connect join .or a b = .ok d) :
    IsTerm d ∧ IsTruth σ d (p || q) := by
  rcases connect_cases join .or ha hb with heq | heq
  · rw [heq] at h
    exact ⟨isTerm_joined h, joined_or ha hb h⟩
  · exact (hjoin.or (heq.symm.trans h)).imp_right (· σ)

theorem negation_isTruth (ha : IsTruth σ a p) (h : Operand.negation a = .ok d) :
    IsTruth σ d (!p) ∧ IsTerm d := by
  obtain ⟨t, ht, h⟩ := bind_eq_ok.1 h
  obtain rfl := Except.ok.inj h
  have hp := truthValue?_truthOf ha ht
  exact ⟨.term rfl rfl (by simp [Term.truthValue?, hp]), _, rfl⟩

end Operands

section Tree

variable {join : Operand.Join} {σ : Assignment} {names names' : List String} {d : Datum}

def Stands (σ : Assignment) : (k : Kind) → Datum → k.Carrier → Prop
  | .number => IsNumber σ
  | .truth => IsTruth σ

/-- What the translation of an expression gives, and what it adds to the names met so far. -/
structure Translates (σ : Assignment) {k : Kind} (e : Expr k) (names : List String) (d : Datum)
    (names' : List String) : Prop where
  value : ∃ v, e.eval σ.number = some v ∧ Stands σ k d v
  isTerm : e.names ≠ [] → IsTerm d
  names : ∀ x, x ∈ names' ↔ x ∈ names ∨ x ∈ e.names

theorem run_bind_eq_ok {α β : Type} {x : Naming α} {f : α → Naming β} {b : β} :
    (x >>= f).run names = .ok (b, names') ↔
      ∃ a middle, x.run names = .ok (a, middle) ∧ (f a).run middle = .ok (b, names') := by
  rw [StateT.run_bind, bind_eq_ok, Prod.exists]

theorem run_liftM_eq_ok {α : Type} {x : Except Fault α} {a : α} :
    (liftM x : Naming α).run names = .ok (a, names') ↔ x = .ok a ∧ names' = names := by
  cases x with
  | error e =>
    constructor
    · intro h
      cases h
    · rintro ⟨h, -⟩
      cases h
  | ok b =>
    constructor
    · intro h
      obtain ⟨rfl, rfl⟩ := Prod.mk.inj (Except.ok.inj h)
      exact ⟨rfl, rfl⟩
    · rintro ⟨h, rfl⟩
      obtain rfl := Except.ok.inj h
      rfl

theorem run_variableOf {x : String} (h : (variableOf x).run names = .ok (d, names')) :
    d = .term (.var x) ∧ ∀ y, y ∈ names' ↔ y ∈ names ∨ y = x := by
  by_cases hx : x ∈ names
  · have hrun : (variableOf x).run names = .ok (.term (.var x), names) := by
      simp [variableOf, hx]
    obtain ⟨rfl, rfl⟩ := Prod.mk.inj (Except.ok.inj (hrun.symm.trans h))
    refine ⟨rfl, fun y => ⟨.inl, ?_⟩⟩
    rintro (hy | rfl)
    · exact hy
    · exact hx
  · have hrun : (variableOf x).run names = .ok (.term (.var x), names ++ [x]) := by
      simp [variableOf, hx]
    obtain ⟨rfl, rfl⟩ := Prod.mk.inj (Except.ok.inj (hrun.symm.trans h))
    exact ⟨rfl, fun y => by simp⟩

theorem run_liftM_unique {α : Type} {x : Except Fault α} {a a' : α}
    {before before' after after' : List String}
    (h : (liftM x : Naming α).run before = .ok (a, after))
    (h' : (liftM x : Naming α).run before' = .ok (a', after')) :
    a = a' := by
  obtain ⟨ha, -⟩ := run_liftM_eq_ok.1 h
  obtain ⟨ha', -⟩ := run_liftM_eq_ok.1 h'
  exact Except.ok.inj (ha.symm.trans ha')

/-- The names met before an expression do not matter for what it becomes. -/
theorem condition_unique {n : Node} {before before' after after' : List String} {d d' : Datum}
    (h : (condition join n).run before = .ok (d, after))
    (h' : (condition join n).run before' = .ok (d', after')) : d = d' := by
  fun_induction condition join n generalizing before before' after after' d d' with
  | case1 => exact run_liftM_unique h h'
  | case2 => rw [(run_variableOf h).1, (run_variableOf h').1]
  | case3 =>
    rename_i ih
    exact ih h h'
  | case5 =>
    rename_i ih
    obtain ⟨a, _, ha, h⟩ := run_bind_eq_ok.1 h
    obtain ⟨a', _, ha', h'⟩ := run_bind_eq_ok.1 h'
    obtain rfl := ih ha ha'
    exact run_liftM_unique h h'
  | case8 =>
    rename_i ihl ihr
    obtain ⟨l, _, hl, h⟩ := run_bind_eq_ok.1 h
    obtain ⟨l', _, hl', h'⟩ := run_bind_eq_ok.1 h'
    obtain rfl := ihl hl hl'
    obtain ⟨r, _, hr, h⟩ := run_bind_eq_ok.1 h
    obtain ⟨r', _, hr', h'⟩ := run_bind_eq_ok.1 h'
    obtain rfl := ihr hr hr'
    exact run_liftM_unique h h'
  | case4 | case6 | case7 | case9 | case10 => cases h

theorem condition_literal {n : Node} (hkind : n.kind = "decimal_integer_literal") :
    condition join n = liftM (literal (Text.trim n.text)) := by
  obtain ⟨kind, text, children, fields, start, stop, row, endRow⟩ := n
  obtain rfl : kind = _ := hkind
  have hliteral : "decimal_integer_literal".endsWith "_literal" = true := by decide +kernel
  rw [condition.eq_def]
  exact if_pos hliteral

theorem condition_name {n : Node} (hkind : n.kind = "identifier" ∨ n.kind = "method_invocation") :
    condition join n = variableOf (Text.trim n.text) := by
  obtain ⟨kind, text, children, fields, start, stop, row, endRow⟩ := n
  have hliteral : ¬ kind.endsWith "_literal" = true := by
    rcases hkind with rfl | rfl <;> decide +kernel
  rw [condition.eq_def]
  exact (if_neg hliteral).trans (if_pos hkind)

theorem condition_paren {n left inner right : Node} (hkind : n.kind = "parenthesized_expression")
    (hchildren : n.children = [left, inner, right]) : condition join n = condition join inner := by
  obtain ⟨kind, text, children, fields, start, stop, row, endRow⟩ := n
  obtain rfl : kind = _ := hkind
  obtain rfl : children = _ := hchildren
  rw [condition, if_neg (by decide +kernel), if_neg (by decide), if_pos rfl]

theorem condition_not {n op operand : Node} (hkind : n.kind = "unary_expression")
    (hchildren : n.children = [op, operand]) (hop : op.text = "!") :
    condition join n = condition join operand >>= fun d => liftM (Operand.negation d) := by
  obtain ⟨kind, text, children, fields, start, stop, row, endRow⟩ := n
  obtain rfl : kind = _ := hkind
  obtain rfl : children = _ := hchildren
  rw [condition, if_neg (by decide +kernel), if_neg (by decide), if_neg (by decide),
    if_pos rfl, if_pos hop]

theorem condition_binary {n left right : Node} {sign : String} (h : IsBinary n left right sign) :
    condition join n = condition join left >>= fun l => condition join right >>= fun r =>
      liftM (binary join sign l r) := by
  obtain ⟨hkind, op, hchildren, rfl⟩ := h
  obtain ⟨kind, text, children, fields, start, stop, row, endRow⟩ := n
  obtain rfl : kind = _ := hkind
  obtain rfl : children = _ := hchildren
  rw [condition, if_neg (by decide +kernel), if_neg (by decide), if_neg (by decide),
    if_neg (by decide), if_pos rfl]

/-- The operands of a binary expression are translated from the left to the right. -/
theorem run_binary {n left right : Node} {sign : String} (h : IsBinary n left right sign) :
    (condition join n).run names = .ok (d, names') ↔
      ∃ l r middle, (condition join left).run names = .ok (l, middle) ∧
        (condition join right).run middle = .ok (r, names') ∧ binary join sign l r = .ok d := by
  rw [condition_binary h, run_bind_eq_ok]
  constructor
  · rintro ⟨l, middle, hl, hrun⟩
    obtain ⟨r, last, hr, hrun⟩ := run_bind_eq_ok.1 hrun
    obtain ⟨hd, rfl⟩ := run_liftM_eq_ok.1 hrun
    exact ⟨l, r, middle, hl, hr, hd⟩
  · rintro ⟨l, r, middle, hl, hr, hd⟩
    exact ⟨l, middle, hl, run_bind_eq_ok.2 ⟨r, names', hr, run_liftM_eq_ok.2 ⟨hd, rfl⟩⟩⟩

theorem binary_arith (op : Arith) (l r : Datum) :
    binary join (arithSign op) l r = Operand.arith (arithOp op) l r := by
  cases op <;> rfl

def orderOp : Rel → Term.Op
  | .lt => .lt
  | .le => .le
  | .gt => .gt
  | .ge => .ge

theorem binary_order (rel : Rel) (l r : Datum) :
    binary join (orderSign rel) l r = Operand.compare (orderOp rel) l r := by
  cases rel <;> rfl

theorem binary_equality (same : Bool) (l r : Datum) :
    binary join (if same then "==" else "!=") l r = Operand.compare (equality same) l r := by
  cases same <;> rfl

theorem compareInts_order (rel : Rel) (x y : Int) :
    Term.compareInts (orderOp rel) x y = some (ordered rel x y) := by
  cases rel <;> rfl

theorem compareInts_equality (same : Bool) (x y : Int) :
    Term.compareInts (equality same) x y = some (decide (x = y) == same) := by
  cases same <;> simp [equality, Term.compareInts]

/-- What is left to show for a binary expression once its operands are translated. -/
theorem Translates.binary {k k' : Kind} {l r : Expr k} {e : Expr k'} {a b : Datum}
    {middle : List String} (hl : Translates σ l names a middle)
    (hr : Translates σ r middle b names') (he : e.names = l.names ++ r.names)
    (hvalue : ∃ v, e.eval σ.number = some v ∧ Stands σ k' d v)
    (hterm : IsTerm a ∨ IsTerm b → IsTerm d) :
    Translates σ e names d names' := by
  refine ⟨hvalue, fun hne => hterm ?_, fun x => ?_⟩
  · rw [he, ne_eq, List.append_eq_nil_iff, not_and_or] at hne
    exact hne.imp hl.isTerm hr.isTerm
  · rw [hr.names, hl.names, he, List.mem_append, or_assoc]

theorem IsTree.translates (hjoin : JoinsTruths join) {k : Kind} {n : Node} {e : Expr k}
    (htree : IsTree n e) (hdiv : e.DividesWell σ.number)
    (h : (condition join n).run names = .ok (d, names')) : Translates σ e names d names' := by
  induction htree generalizing names d names' with
  | literal mark hkind hdigits hmark htext =>
    rw [condition_literal hkind, run_liftM_eq_ok] at h
    obtain ⟨hd, rfl⟩ := h
    obtain rfl := literal_eq hdigits hmark htext hd
    exact ⟨⟨_, rfl, .plain _⟩, by simp [Expr.names], by simp [Expr.names]⟩
  | name hkind =>
    rw [condition_name hkind] at h
    obtain ⟨rfl, hnames⟩ := run_variableOf h
    exact ⟨⟨_, rfl, .term rfl rfl⟩, fun _ => ⟨_, rfl⟩, by simpa [Expr.names] using hnames⟩
  | paren hkind hchildren _ ih =>
    rw [condition_paren hkind hchildren] at h
    obtain ⟨hvalue, hterm, hnames⟩ := ih hdiv h
    exact ⟨hvalue, hterm, hnames⟩
  | not hkind hchildren hop _ ih =>
    rw [condition_not hkind hchildren hop, run_bind_eq_ok] at h
    obtain ⟨a, middle, ha, h⟩ := h
    obtain ⟨hd, rfl⟩ := run_liftM_eq_ok.1 h
    obtain ⟨⟨p, hp, hstands⟩, -, hnames⟩ := ih hdiv ha
    obtain ⟨hvalue, hterm⟩ := negation_isTruth hstands hd
    exact ⟨⟨!p, by simp [Expr.eval, hp], hvalue⟩, fun _ => hterm, hnames⟩
  | @arith _ _ _ op _ _ hbinary _ _ ihl ihr =>
    obtain ⟨hdl, hdr, hdivides⟩ := hdiv
    obtain ⟨a, b, middle, ha, hb, hd⟩ := (run_binary hbinary).1 h
    have hl := ihl hdl ha
    have hr := ihr hdr hb
    obtain ⟨x, hx, hxa⟩ := hl.value
    obtain ⟨y, hy, hyb⟩ := hr.value
    rw [binary_arith] at hd
    have hcond : op.divides = true → 0 ≤ x ∧ y ≠ 0 ∧ (IsTerm a ∨ IsTerm b) := by
      intro hop
      obtain ⟨hnonneg, hzero, hvar⟩ := hdivides hop
      exact ⟨hnonneg x hx, hzero y hy, hvar.imp hl.isTerm hr.isTerm⟩
    obtain ⟨⟨z, hz, hvalue⟩, hterm⟩ := arith_isNumber hxa hyb hcond hd
    exact hl.binary hr rfl ⟨z, by simp [Expr.eval, hx, hy, hz], hvalue⟩ hterm
  | @order _ _ _ rel _ _ hbinary _ _ ihl ihr =>
    obtain ⟨a, b, middle, ha, hb, hd⟩ := (run_binary hbinary).1 h
    have hl := ihl hdiv.1 ha
    have hr := ihr hdiv.2 hb
    obtain ⟨x, hx, hxa⟩ := hl.value
    obtain ⟨y, hy, hyb⟩ := hr.value
    rw [binary_order] at hd
    obtain ⟨hvalue, hterm⟩ := compare_isNumber hxa hyb (compareInts_order rel x y) hd
    exact hl.binary hr rfl ⟨ordered rel x y, by simp [Expr.eval, hx, hy], hvalue⟩ hterm
  | @equal k _ _ _ same _ _ hbinary _ _ ihl ihr =>
    obtain ⟨a, b, middle, ha, hb, hd⟩ := (run_binary hbinary).1 h
    have hl := ihl hdiv.1 ha
    have hr := ihr hdiv.2 hb
    obtain ⟨x, hx, hxa⟩ := hl.value
    obtain ⟨y, hy, hyb⟩ := hr.value
    rw [binary_equality] at hd
    have hstands : IsTruth σ d (decide (x = y) == same) ∧ (IsTerm a ∨ IsTerm b → IsTerm d) := by
      cases k with
      | number => exact compare_isNumber hxa hyb (compareInts_equality same x y) hd
      | truth => exact compare_isTruth hxa hyb hd
    exact hl.binary hr rfl ⟨decide (x = y) == same, by simp [Expr.eval, hx, hy],
      hstands.1⟩ hstands.2
  | and hbinary _ _ ihl ihr =>
    obtain ⟨a, b, middle, ha, hb, hd⟩ := (run_binary hbinary).1 h
    have hl := ihl hdiv.1 ha
    have hr := ihr hdiv.2 hb
    obtain ⟨p, hp, hpa⟩ := hl.value
    obtain ⟨q, hq, hqb⟩ := hr.value
    obtain ⟨hterm, hvalue⟩ := and_isTruth hjoin hpa hqb hd
    refine hl.binary hr rfl ⟨p && q, ?_, hvalue⟩ fun _ => hterm
    cases p <;> simp [Expr.eval, hp, hq]
  | or hbinary _ _ ihl ihr =>
    obtain ⟨a, b, middle, ha, hb, hd⟩ := (run_binary hbinary).1 h
    have hl := ihl hdiv.1 ha
    have hr := ihr hdiv.2 hb
    obtain ⟨p, hp, hpa⟩ := hl.value
    obtain ⟨q, hq, hqb⟩ := hr.value
    obtain ⟨hterm, hvalue⟩ := or_isTruth hjoin hpa hqb hd
    refine hl.binary hr rfl ⟨p || q, ?_, hvalue⟩ fun _ => hterm
    cases p <;> simp [Expr.eval, hp, hq]

def value? (σ : Assignment) : (k : Kind) → Datum → Option k.Carrier
  | .number, .int n => some n
  | .number, .term t => t.intValue? σ
  | .truth, .bool b => some b
  | .truth, .term t => t.truthValue? σ
  | _, _ => none

theorem Stands.value?_eq {k : Kind} {v : k.Carrier} (h : Stands σ k d v) :
    value? σ k d = some v := by
  cases k with
  | number =>
    cases h with
    | plain => rfl
    | term _ hvalue => exact hvalue
  | truth =>
    cases h with
    | plain => rfl
    | term _ _ hvalue => exact hvalue

end Tree

/-- The condition of an expression has the value of the expression, and its variables are the
names. -/
theorem condition_preserves_meaning {join : Operand.Join} (hjoin : JoinsTruths join) {k : Kind}
    {n : Node} {e : Expr k} (htree : IsTree n e) (σ : Assignment) (hdiv : e.DividesWell σ.number)
    {names names' : List String} {d : Datum} (h : (condition join n).run names = .ok (d, names')) :
    ∃ v, e.eval σ.number = some v ∧ value? σ k d = some v ∧
      ∀ x, x ∈ names' ↔ x ∈ names ∨ x ∈ e.names := by
  obtain ⟨⟨v, hv, hstands⟩, -, hnames⟩ := htree.translates hjoin hdiv h
  exact ⟨v, hv, hstands.value?_eq, hnames⟩

def leaf (kind text : String) : Node := ⟨kind, text, [], [], 0, 0, 0, 0⟩

def branch (kind : String) (children : List Node) : Node := ⟨kind, "", children, [], 0, 0, 0, 0⟩

/-- The tree of `!(x / 2 > 1_0)`. -/
def halfTree : Node :=
  branch "unary_expression" [leaf "!" "!", branch "parenthesized_expression" [leaf "(" "(",
    branch "binary_expression" [
      branch "binary_expression" [leaf "identifier" "x", leaf "/" "/",
        leaf "decimal_integer_literal" "2"],
      leaf ">" ">", leaf "decimal_integer_literal" "1_0"], leaf ")" ")"]]

def halfExpr : Expr .truth :=
  .not (.paren (.order .gt (.arith .div (.name "x") (.literal ['2'])) (.literal ['1', '_', '0'])))

theorem isTree_half : IsTree halfTree halfExpr := by
  have hten : IsNumeral ['1', '_', '0'] := ⟨by simp, ⟨'1', _, rfl, rfl, by simp⟩, by decide⟩
  have htwo : IsNumeral ['2'] := ⟨by simp, ⟨'2', _, rfl, rfl, by simp⟩, by decide⟩
  refine .not rfl rfl rfl
    (.paren rfl rfl (.order ⟨rfl, _, rfl, rfl⟩ (.arith ⟨rfl, _, rfl, rfl⟩ ?_ ?_) ?_))
  · exact .name (.inl rfl)
  · exact .literal [] rfl htwo (.inl rfl) (by decide +kernel)
  · exact .literal [] rfl hten (.inl rfl) (by decide +kernel)

theorem condition_half (join : Operand.Join) : (condition join halfTree).run [] =
    .ok (.term (.not (.bin .gt (.bin .div (.var "x") (.int 2)) (.int 10))), ["x"]) := by
  have hx : (condition join (leaf "identifier" "x")).run [] = .ok (.term (.var "x"), ["x"]) := by
    rw [condition_name (.inl rfl),
      show Text.trim (leaf "identifier" "x").text = "x" by decide +kernel]
    rfl
  have hliteral : ∀ text n, literal (Text.trim text) = .ok (.int n) →
      (condition join (leaf "decimal_integer_literal" text)).run ["x"] = .ok (.int n, ["x"]) := by
    intro text n h
    rw [condition_literal rfl]
    exact run_liftM_eq_ok.2 ⟨h, rfl⟩
  have htwo := hliteral "2" 2 rfl
  have hten := hliteral "1_0" 10 rfl
  have hdivide : binary join (arithSign .div) (.term (.var "x")) (.int 2) =
      .ok (.term (.bin .div (.var "x") (.int 2))) := by
    rw [binary_arith]
    exact arith_term_int .div rfl (by decide +kernel)
  have hquotient : (condition join (branch "binary_expression"
      [leaf "identifier" "x", leaf "/" "/", leaf "decimal_integer_literal" "2"])).run [] =
        .ok (.term (.bin .div (.var "x") (.int 2)), ["x"]) :=
    (run_binary (show IsBinary _ _ _ (arithSign .div) from ⟨rfl, _, rfl, rfl⟩)).2
      ⟨_, _, _, hx, htwo, hdivide⟩
  have hcompare : binary join (orderSign .gt) (.term (.bin .div (.var "x") (.int 2))) (.int 10) =
      .ok (.term (.bin .gt (.bin .div (.var "x") (.int 2)) (.int 10))) := by
    rw [binary_order]
    exact bind_eq_ok.2 ⟨_, (mixedCompare_int rfl).2 ⟨by decide +kernel, rfl⟩, rfl⟩
  rw [halfTree, condition_not rfl rfl rfl, condition_paren rfl rfl, run_bind_eq_ok]
  exact ⟨.term (.bin .gt (.bin .div (.var "x") (.int 2)) (.int 10)), ["x"],
    (run_binary (show IsBinary _ _ _ (orderSign .gt) from ⟨rfl, _, rfl, rfl⟩)).2
      ⟨_, _, _, hquotient, hten, hcompare⟩, rfl⟩

theorem condition_half_means :
    ∃ v, halfExpr.eval (fun _ => 25) = some v ∧
      value? ⟨fun _ => 25, fun _ => false⟩ .truth
        (.term (.not (.bin .gt (.bin .div (.var "x") (.int 2)) (.int 10)))) = some v := by
  have hdiv : halfExpr.DividesWell fun _ => 25 := by
    refine ⟨⟨trivial, trivial, fun _ => ⟨?_, ?_, .inl (by simp [Expr.names])⟩⟩, trivial⟩
    · rintro a ha
      obtain rfl := Option.some.inj ha
      decide
    · rintro b hb
      obtain rfl := Option.some.inj hb
      decide
  obtain ⟨v, hv, hvalue, -⟩ := condition_preserves_meaning joinsTruths_joined isTree_half
    ⟨fun _ => 25, fun _ => false⟩ hdiv (condition_half _)
  exact ⟨v, hv, hvalue⟩

end Assay.Syntax
