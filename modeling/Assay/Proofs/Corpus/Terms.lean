import Mathlib.Data.List.Nodup
import Mathlib.Data.List.Perm.Basic
import Mathlib.Data.String.Basic
import Assay.Proofs.Corpus.Phrase
import Assay.Proofs.Syntax.Condition

/-!
# The terms of a branch

The conditions of a branch become terms over the variables of its parameters, and these hold for the
same numbers as the branch. The names that are found in its conditions are those of its parameters,
in their order.
-/

namespace Assay.Corpus

open Assay.Symbolic (arithOp)
open Assay.Syntax (IsNumber IsTruth)

/-- The variables of parameters. -/
def scope (is : List Nat) : List (String × Term) :=
  is.map fun i => (parameterName i, .var (parameterName i))

/-- The numbers that an assignment gives to the parameters. -/
def numbersOf (σ : Assignment) (i : Nat) : Int := σ.number (parameterName i)

theorem lookup_scope {is : List Nat} {i : Nat} (hi : i ∈ is) :
    (scope is).lookup (parameterName i) = some (.var (parameterName i)) := by
  induction is with
  | nil => cases hi
  | cons j is ih =>
    rw [scope, List.map_cons, List.lookup_cons]
    by_cases hj : parameterName i = parameterName j
    · simp [hj]
    · rw [beq_false_of_ne hj]
      refine ih ((List.mem_cons.1 hi).resolve_left ?_)
      rintro rfl
      exact hj rfl

def Sign.arith : Sign → Arith
  | add => .add
  | sub => .sub
  | mul => .mul

theorem arithOp_arith (sign : Sign) : arithOp sign.arith = sign.op := by
  cases sign <;> rfl

/-- What a quantity becomes: its number, or a term of the same value. -/
inductive Stands (q : Quantity) : Datum → Prop
  | constant (h : q.params = []) : Stands q (.int q.constant)
  | term {t : Term} (hkind : t.kind = .int)
      (hvalue : ∀ σ, t.intValue? σ = some (q.eval (numbersOf σ))) :
      Stands q (.term t)

section Quantities

variable {p q : Quantity} {a b : Datum} {is : List Nat}

theorem Stands.isNumber (h : Stands q a) (σ : Assignment) :
    IsNumber σ a (q.eval (numbersOf σ)) := by
  cases h with
  | constant h =>
    rw [Quantity.eval_eq_constant h]
    exact .plain _
  | term hkind hvalue => exact .term hkind (hvalue σ)

theorem intValue?_sign {σ : Assignment} {s t : Term} {x y : Int} (sign : Sign)
    (hs : s.intValue? σ = some x) (ht : t.intValue? σ = some y) :
    (Term.bin (arithOp sign.arith) s t).intValue? σ = some (sign.apply x y) := by
  cases sign <;> simp [Sign.arith, arithOp, Sign.apply, Term.intValue?, hs, ht]

theorem Stands.join (sign : Sign) (ha : Stands p a) (hb : Stands q b) (hp : p.IsShort)
    (hq : q.IsShort) :
    ∃ d, Operand.arith sign.op a b = .ok d ∧ Stands (.join sign p q) d := by
  rw [← arithOp_arith]
  cases ha with
  | constant hp' =>
    cases hb with
    | constant hq' =>
      refine ⟨.int (Quantity.join sign p q).constant, ?_,
        .constant (by simp [Quantity.params, hp', hq'])⟩
      cases sign <;> rfl
    | term hkind hvalue =>
      refine ⟨_, Syntax.arith_int_term _ hkind (hp.isWritable hp'),
        .term (Syntax.kind_arith rfl hkind) fun σ => ?_⟩
      rw [Quantity.eval, Quantity.eval_eq_constant hp']
      exact intValue?_sign sign rfl (hvalue σ)
  | term hkind hvalue =>
    cases hb with
    | constant hq' =>
      refine ⟨_, Syntax.arith_term_int _ hkind (hq.isWritable hq'),
        .term (Syntax.kind_arith hkind rfl) fun σ => ?_⟩
      rw [Quantity.eval, Quantity.eval_eq_constant hq']
      exact intValue?_sign sign (hvalue σ) rfl
    | term hkind' hvalue' =>
      exact ⟨_, Syntax.termArith_eq hkind hkind', .term (Syntax.kind_arith hkind hkind') fun σ =>
        intValue?_sign sign (hvalue σ) (hvalue' σ)⟩

theorem Stands.neg (ha : Stands q a) :
    ∃ d, Operand.arith .sub (.int 0) a = .ok d ∧ Stands (.neg q) d := by
  cases ha with
  | constant h =>
    refine ⟨.int (-q.constant), ?_, .constant h⟩
    rw [← Int.zero_sub]
    rfl
  | term hkind hvalue =>
    refine ⟨_, Syntax.arith_int_term .sub hkind (by decide +kernel),
      .term (Syntax.kind_arith rfl hkind) fun σ => ?_⟩
    rw [Quantity.eval, ← Int.zero_sub]
    exact intValue?_sign .sub rfl (hvalue σ)

theorem Quantity.exists_stands (hshort : q.IsShort) (hscope : ∀ i ∈ q.params, i ∈ is) :
    ∃ d, q.expression.eval (scope is) = .ok d ∧ Stands q d := by
  induction q with
  | numeral n => exact ⟨_, rfl, .constant rfl⟩
  | param i =>
    refine ⟨.term (.var (parameterName i)), ?_, .term rfl fun σ => rfl⟩
    rw [expression, Expression.eval, lookup_scope (hscope i (by simp [params]))]
  | neg q ih =>
    obtain ⟨a, ha, hstands⟩ := ih hshort hscope
    obtain ⟨d, hd, hneg⟩ := hstands.neg
    exact ⟨d, bind_eq_ok.2 ⟨a, ha, hd⟩, hneg⟩
  | join sign p q ihp ihq =>
    obtain ⟨a, ha, hstands⟩ := ihp hshort.1 fun i hi => hscope i (by simp [params, hi])
    obtain ⟨b, hb, hstands'⟩ := ihq hshort.2.1 fun i hi => hscope i (by simp [params, hi])
    obtain ⟨d, hd, hjoin⟩ := hstands.join sign hstands' hshort.1 hshort.2.1
    exact ⟨d, bind_eq_ok.2 ⟨a, ha, bind_eq_ok.2 ⟨b, hb, hd⟩⟩, hjoin⟩

end Quantities

section Comparisons

variable {p q : Quantity} {a b : Datum} {is : List Nat}

theorem compareInts_op (relation : Relation) (x y : Int) :
    Term.compareInts relation.op x y = some (relation.test x y) := by
  cases relation <;> rfl

theorem exists_compare (relation : Relation) (ha : Stands p a) (hb : Stands q b) (hp : p.IsShort)
    (hq : q.IsShort) :
    ∃ d, Operand.compare relation.op a b = .ok d := by
  cases ha with
  | constant hp' =>
    cases hb with
    | constant hq' =>
      exact ⟨_, bind_eq_ok.2 ⟨_, Syntax.plainCompare_int (compareInts_op relation _ _), rfl⟩⟩
    | term hkind =>
      exact ⟨_, bind_eq_ok.2 ⟨_, (Syntax.mixedCompare_int hkind).2 ⟨hp.isWritable hp', rfl⟩, rfl⟩⟩
  | @term s hkind =>
    cases hb with
    | constant hq' =>
      exact ⟨_, bind_eq_ok.2 ⟨_, (Syntax.mixedCompare_int hkind).2 ⟨hq.isWritable hq', rfl⟩, rfl⟩⟩
    | @term t hkind' =>
      have hcompare : ∃ u, Operand.termCompare relation.op s t = .ok u := by
        unfold Operand.termCompare
        rw [if_neg (by simp [hkind])]
        split <;> simp [Operand.unify, hkind, hkind']
      obtain ⟨u, hu⟩ := hcompare
      exact ⟨_, bind_eq_ok.2 ⟨u, hu, rfl⟩⟩

theorem exists_truthOf {σ : Assignment} {v : Bool} (h : IsTruth σ a v) :
    ∃ t, Operand.truthOf a = .ok t := by
  cases h with
  | plain b => exact ⟨_, rfl⟩
  | term hkind => exact ⟨_, by rw [Operand.truthOf, if_pos hkind]⟩

/-- The term of a comparison over some variables. -/
def Comparison.term (is : List Nat) (c : Comparison) : Except Fault Term := do
  Operand.truthOf (← c.expression.eval (scope is))

theorem Comparison.exists_term {c : Comparison} (hl : c.left.IsShort) (hr : c.right.IsShort)
    (hscope : ∀ i ∈ c.params, i ∈ is) :
    ∃ t, c.term is = .ok t ∧ ∀ σ, t.truthValue? σ = some (c.test (numbersOf σ)) := by
  obtain ⟨a, ha, hstands⟩ :=
    Quantity.exists_stands hl fun i hi => hscope i (List.mem_append_left _ hi)
  obtain ⟨b, hb, hstands'⟩ :=
    Quantity.exists_stands hr fun i hi => hscope i (List.mem_append_right _ hi)
  obtain ⟨d, hd⟩ := exists_compare c.relation hstands hstands' hl hr
  have htruth : ∀ σ, IsTruth σ d (c.test (numbersOf σ)) := fun σ =>
    (Syntax.compare_isNumber (hstands.isNumber σ) (hstands'.isNumber σ)
      (compareInts_op c.relation _ _) hd).1
  obtain ⟨t, ht⟩ := exists_truthOf (htruth ⟨fun _ => 0, fun _ => false⟩)
  have heval : c.expression.eval (scope is) = .ok d :=
    bind_eq_ok.2 ⟨a, ha, bind_eq_ok.2 ⟨b, hb, hd⟩⟩
  exact ⟨t, bind_eq_ok.2 ⟨d, heval, ht⟩, fun σ => Syntax.truthValue?_truthOf (htruth σ) ht⟩

end Comparisons

section Texts

variable {texts : List String} {cs : List Comparison}

/-- The texts write the comparisons. -/
def AreTexts (texts : List String) (cs : List Comparison) : Prop :=
  List.Forall₂ (fun text c => c.IsText text.toList) texts cs

theorem Written.params_lt {r : Rank} {s : List Char} {q : Quantity} (h : Written r s q) :
    ∀ i ∈ q.params, i < letterCount := by
  induction h with
  | numeral n => simp [Quantity.params]
  | param h => simpa [Quantity.params] using h
  | paren m n h ih => exact ih
  | neg n h ih => exact ih
  | factor h ih => exact ih
  | product h ih => exact ih
  | sum h ih => exact ih
  | join sign m n hp hq ihp ihq =>
    intro i hi
    exact (List.mem_append.1 hi).elim (ihp i) (ihq i)

theorem Comparison.IsText.params_lt {s : List Char} {c : Comparison} (h : c.IsText s) :
    ∀ i ∈ c.params, i < letterCount := by
  obtain ⟨l, r, m, n, hl, hr, -⟩ := h
  intro i hi
  exact (List.mem_append.1 hi).elim (hl.params_lt i) (hr.params_lt i)

theorem parameterName_lt {i j : Nat} (hij : i < j) (hj : j < letterCount) :
    parameterName i < parameterName j := by
  have hall : ∀ j < letterCount, ∀ i < j, parameterName i < parameterName j := by decide +kernel
  exact hall j hj i hij

theorem nodup_eraseDups {α : Type} [BEq α] [LawfulBEq α] (xs : List α) : xs.eraseDups.Nodup := by
  match xs with
  | [] => simp
  | x :: xs =>
    rw [List.eraseDups_cons, List.nodup_cons]
    exact ⟨by simp, nodup_eraseDups _⟩
termination_by xs.length
decreasing_by
  have hle := List.length_filter_le (fun y => !y == x) xs
  rw [List.length_cons]
  omega

theorem AreTexts.params_lt (h : AreTexts texts cs) : ∀ c ∈ cs, ∀ i ∈ c.params, i < letterCount := by
  induction h with
  | nil => simp
  | cons htext _ ih => simpa using ⟨htext.params_lt, ih⟩

theorem AreTexts.namesIn_eq (h : AreTexts texts cs) :
    (texts.flatMap fun text => namesIn text.toList 0) =
      (cs.flatMap Comparison.params).map parameterName := by
  induction h with
  | nil => rfl
  | cons htext _ ih =>
    rw [List.flatMap_cons, List.flatMap_cons, List.map_append, ih, Comparison.namesIn_eq htext]

theorem pairwise_mentioned (texts : List String) : (mentioned texts).Pairwise (· ≤ ·) := by
  have hle : ∀ a b : String, (!decide (b < a)) = true ↔ a ≤ b := by
    intro a b
    rw [Bool.not_eq_true', decide_eq_false_iff_not, String.not_lt]
  have htrans : ∀ a b c : String, (!decide (b < a)) = true → (!decide (c < b)) = true →
      (!decide (c < a)) = true := by
    intro a b c hab hbc
    exact (hle a c).2 (String.le_trans ((hle a b).1 hab) ((hle b c).1 hbc))
  have htotal : ∀ a b : String, (!decide (b < a) || !decide (a < b)) = true := by
    intro a b
    rw [Bool.or_eq_true, hle, hle]
    exact String.le_total a b
  exact (List.pairwise_mergeSort htrans htotal _).imp fun hab => (hle _ _).1 hab

theorem AreTexts.constraints_eq (h : AreTexts texts cs) (hl : ∀ c ∈ cs, c.left.IsShort)
    (hr : ∀ c ∈ cs, c.right.IsShort) (is : List Nat) :
    constraints (scope is) texts = cs.mapM (Comparison.term is) := by
  induction h with
  | nil => rfl
  | @cons text c texts cs htext _ ih =>
    have hparse := c.parse?_eq htext (hl c (by simp)) (hr c (by simp))
    rw [String.ofList_toList] at hparse
    have hrest := ih (fun c hc => hl c (by simp [hc])) fun c hc => hr c (by simp [hc])
    rw [constraints] at hrest ⊢
    rw [List.mapM_cons, List.mapM_cons, hrest, hparse]
    rfl

end Texts

namespace Branch

variable {b : Branch} {texts : List String}

/-- The terms that the oracle is asked about. -/
def terms (b : Branch) : Except Fault (List Term) := b.conditions.mapM (Comparison.term b.params)

theorem pairwise_params (b : Branch) : b.params.Pairwise (· < ·) := List.pairwise_lt_range.filter _

theorem lt_of_mem_params {i : Nat} (hi : i ∈ b.params) : i < letterCount :=
  List.mem_range.1 (List.mem_filter.1 hi).1

theorem mem_params (h : AreTexts texts b.conditions) {i : Nat} :
    i ∈ b.params ↔ ∃ c ∈ b.conditions, i ∈ c.params := by
  simp only [params, List.mem_filter, List.mem_range, decide_eq_true_eq, List.mem_flatMap,
    and_iff_right_iff_imp]
  rintro ⟨c, hc, hi⟩
  exact h.params_lt c hc i hi

/-- The names in the conditions, in their order, are those of the parameters in theirs. -/
theorem mentioned_eq (h : AreTexts texts b.conditions) :
    mentioned texts = b.params.map parameterName := by
  have hordered : (b.params.map parameterName).Pairwise (· < ·) := by
    rw [List.pairwise_map]
    exact b.pairwise_params.imp_of_mem fun _ hj hij => parameterName_lt hij (lt_of_mem_params hj)
  have hmem : ∀ x, x ∈ ((b.conditions.flatMap Comparison.params).map parameterName).eraseDups ↔
      x ∈ b.params.map parameterName := by
    intro x
    simp only [List.mem_eraseDups, List.mem_map, mem_params h, List.mem_flatMap]
  have hperm :=
    (List.perm_ext_iff_of_nodup (nodup_eraseDups _) (hordered.imp String.ne_of_lt)).2 hmem
  refine List.Perm.eq_of_pairwise (fun x y _ _ => String.le_antisymm) (pairwise_mentioned texts)
    (hordered.imp fun hxy => String.not_lt.1 (String.lt_asymm hxy)) ?_
  rw [mentioned, h.namesIn_eq]
  exact (List.mergeSort_perm _ _).trans hperm

theorem constraints_eq {n : Nat} (hover : b.IsOver n) (h : AreTexts texts b.conditions) :
    constraints (scope b.params) texts = b.terms :=
  h.constraints_eq hover.left hover.right b.params

/-- The terms hold for the same numbers as the branch. -/
theorem exists_terms {n : Nat} (hover : b.IsOver n) (h : AreTexts texts b.conditions) :
    ∃ ts, b.terms = .ok ts ∧ ∀ σ, (∀ t ∈ ts, t.truthValue? σ = some true) ↔
      b.Holds (numbersOf σ) := by
  have hterm : ∀ c ∈ b.conditions, ∃ t, c.term b.params = .ok t ∧
      ∀ σ, t.truthValue? σ = some (c.test (numbersOf σ)) :=
    fun c hc => c.exists_term (hover.left c hc) (hover.right c hc) fun i hi =>
      (mem_params h).2 ⟨c, hc, hi⟩
  obtain ⟨ts, hts⟩ := exists_mapM fun c hc => (hterm c hc).imp fun t ht => ht.1
  refine ⟨ts, hts, fun σ => ⟨fun h c hc => ?_, fun h t ht => ?_⟩⟩
  · obtain ⟨t, ht, hvalue⟩ := hterm c hc
    have htrue := h t ((mem_of_mapM hts).2 ⟨c, hc, ht⟩)
    rw [hvalue] at htrue
    exact Option.some.inj htrue
  · obtain ⟨c, hc, ht⟩ := (mem_of_mapM hts).1 ht
    obtain ⟨u, hu, hvalue⟩ := hterm c hc
    obtain rfl := Except.ok.inj (hu.symm.trans ht)
    rw [hvalue, h c hc]

end Branch

end Assay.Corpus
