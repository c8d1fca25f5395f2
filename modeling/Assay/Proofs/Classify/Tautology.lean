import Assay.Classify.Solve
import Assay.Proofs.Symbolic.Explore
import Assay.Proofs.Syntax.Condition

/-!
# Tautologies

An assertion is negated and handed to an oracle, and the label says what came of it. With an oracle
that knows the answer, the label `tautology` stands exactly on the assertions that hold whatever
numbers their names and calls have.
-/

namespace Assay

/-- The oracle leaves no question open. -/
def Oracle.IsDecisive (oracle : Oracle) : Prop := ∀ ts, oracle ts ≠ .unknown

theorem Oracle.isDecisive_exact : Oracle.exact.IsDecisive := by
  intro ts
  unfold Oracle.exact
  split <;> nofun

namespace Syntax

/-- There is no quotient and no remainder in the expression. -/
def Expr.IsDivisionFree : {k : Kind} → Expr k → Prop
  | _, literal _ => True
  | _, name _ => True
  | _, paren e => e.IsDivisionFree
  | _, not e => e.IsDivisionFree
  | _, arith op l r => op.divides = false ∧ l.IsDivisionFree ∧ r.IsDivisionFree
  | _, order _ l r => l.IsDivisionFree ∧ r.IsDivisionFree
  | _, equal _ l r => l.IsDivisionFree ∧ r.IsDivisionFree
  | _, and l r => l.IsDivisionFree ∧ r.IsDivisionFree
  | _, or l r => l.IsDivisionFree ∧ r.IsDivisionFree

theorem Expr.IsDivisionFree.dividesWell {k : Kind} {e : Expr k} (h : e.IsDivisionFree)
    (σ : String → Int) :
    e.DividesWell σ := by
  induction e with
  | literal | name => trivial
  | paren e ih | not e ih => exact ih h
  | arith op l r ihl ihr =>
    obtain ⟨hop, hl, hr⟩ := h
    refine ⟨ihl hl, ihr hr, fun hdiv => ?_⟩
    rw [hop] at hdiv
    cases hdiv
  | order _ l r ihl ihr | equal _ l r ihl ihr | and l r ihl ihr | or l r ihl ihr =>
    exact ⟨ihl h.1, ihr h.2⟩

/-- A tree of an expression is neither the word nor the mark that an assertion has around it. -/
theorem IsTree.isPart {k : Kind} {n : Node} {e : Expr k} (h : IsTree n e) :
    n.kind ≠ "assert" ∧ n.kind ≠ ";" := by
  cases h with
  | literal _ hkind => exact hkind ▸ (by decide)
  | name hkind => rcases hkind with hkind | hkind <;> exact hkind ▸ (by decide)
  | paren hkind | not hkind => exact hkind ▸ (by decide)
  | arith h | order h | equal h | and h | or h => exact h.1 ▸ (by decide)

end Syntax

namespace Classify

open Syntax (Expr IsTree condition)

/-- The statement asserts what stands at a node. A message may follow. -/
structure IsAssertion (statement n : Node) : Prop where
  kind : statement.kind = "assert_statement"
  children : ∃ word rest, word.kind = "assert" ∧ statement.children = word :: n :: rest

section

variable {statement n : Node} {e : Expr .truth} {join : Operand.Join} {ts : List Term}
  {names : List String} {oracle : Oracle}

theorem IsAssertion.expressionOf? (h : IsAssertion statement n) (htree : IsTree n e) :
    expressionOf? statement = some n := by
  obtain ⟨word, rest, hword, hchildren⟩ := h.children
  simp [Classify.expressionOf?, hchildren, hword, htree.isPart]

theorem IsAssertion.run_negated (h : IsAssertion statement n) (htree : IsTree n e) :
    (negated join [statement]).run [] = .ok (ts, names) ↔
      ∃ d t, (condition join n).run [] = .ok (d, names) ∧ Operand.truthOf d = .ok t ∧
        ts = [.not t] := by
  rw [negated, h.expressionOf? htree]
  simp only [Syntax.run_bind_eq_ok, Syntax.run_liftM_eq_ok]
  constructor
  · rintro ⟨d, middle, hd, t, _, ⟨ht, rfl⟩, rest, last, hrest, hts⟩
    obtain ⟨rfl, rfl⟩ := Prod.mk.inj (Except.ok.inj hrest)
    obtain ⟨rfl, rfl⟩ := Prod.mk.inj (Except.ok.inj hts)
    exact ⟨d, t, hd, ht, rfl⟩
  · rintro ⟨d, t, hd, ht, rfl⟩
    exact ⟨d, names, hd, t, names, ⟨ht, rfl⟩, [], names, rfl, rfl⟩

/-- The negated assertion is one term, which holds exactly where the assertion fails. -/
theorem IsAssertion.holds_iff (hjoin : Syntax.JoinsTruths join) (h : IsAssertion statement n)
    (htree : IsTree n e) (hfree : e.IsDivisionFree)
    (hrun : (negated join [statement]).run [] = .ok (ts, names)) (σ : Assignment) :
    (∀ t ∈ ts, t.truthValue? σ = some true) ↔ e.eval σ.number ≠ some true := by
  obtain ⟨d, t, hd, ht, rfl⟩ := (h.run_negated htree).1 hrun
  obtain ⟨p, hp, hstands⟩ := (htree.translates hjoin (hfree.dividesWell σ.number) hd).value
  have hvalue := Syntax.truthValue?_truthOf hstands ht
  simp [Term.truthValue?, hvalue, hp]

/-- What the first answer of the oracle becomes. -/
def firstAnswer (names : List String) : Satisfiable → Solved
  | .sat m => ⟨.sat, names, some m⟩
  | .unsat => ⟨.unsat, names, none⟩
  | .unknown => ⟨.unknown, names, none⟩

theorem solve_one (join : Operand.Join) (oracle : Oracle) (assertions : List Node) :
    solve join oracle assertions 1 =
      (negated join assertions).run [] >>= fun (ts, names) =>
        .ok (some (firstAnswer names (oracle ts))) := by
  rw [solve]
  congr 1
  funext ⟨ts, names⟩
  cases h : oracle ts <;> simp [h, firstAnswer, further]

theorem labelOf_sat_ne (informative : Bool) : labelOf .sat informative ≠ "tautology" := by
  cases informative <;> decide

theorem label_firstAnswer (names : List String) {s : Satisfiable} (hs : s ≠ .unknown) :
    (firstAnswer names s).label = "tautology" ↔ s.isSat = false := by
  cases s with
  | sat m => simp [firstAnswer, Solved.label, labelOf_sat_ne, Satisfiable.isSat]
  | unsat => simp [firstAnswer, Solved.label, labelOf, Satisfiable.isSat]
  | unknown => exact absurd rfl hs

end

/-- An assertion is labelled a tautology exactly if it holds for all values of its names and
calls. -/
theorem label_eq_tautology_iff (join : Operand.Join) (hjoin : Syntax.JoinsTruths join)
    (oracle : Oracle) (hexact : oracle.IsExact) (hdecisive : oracle.IsDecisive) {statement n : Node}
    (hstatement : IsAssertion statement n) {e : Expr .truth} (htree : IsTree n e)
    (hfree : e.IsDivisionFree) {r : Option Solved} (h : solve join oracle [statement] 1 = .ok r) :
    ∃ s, r = some s ∧ (s.label = "tautology" ↔ ∀ σ : String → Int, e.eval σ = some true) := by
  rw [solve_one] at h
  obtain ⟨⟨ts, names⟩, hrun, h⟩ := bind_eq_ok.1 h
  refine ⟨_, (Except.ok.inj h).symm, ?_⟩
  rw [label_firstAnswer names (hdecisive ts), ← Bool.not_eq_true, hexact ts]
  constructor
  · intro hnone σ
    by_contra hfails
    exact hnone ⟨⟨σ, fun _ => false⟩, (hstatement.holds_iff hjoin htree hfree hrun _).2 hfails⟩
  · rintro hall ⟨σ, hσ⟩
    exact (hstatement.holds_iff hjoin htree hfree hrun σ).1 hσ (hall σ.number)

/-- The tree of `assert x < get() || x + 1 > get() : "ordered";`. -/
def orderedTree : Node :=
  let x := Syntax.leaf "identifier" "x"
  let get := Syntax.leaf "method_invocation" "get()"
  Syntax.branch "assert_statement" [Syntax.leaf "assert" "assert",
    Syntax.branch "binary_expression" [
      Syntax.branch "binary_expression" [x, Syntax.leaf "<" "<", get], Syntax.leaf "||" "||",
      Syntax.branch "binary_expression" [
        Syntax.branch "binary_expression"
          [x, Syntax.leaf "+" "+", Syntax.leaf "decimal_integer_literal" "1"],
        Syntax.leaf ">" ">", get]],
    Syntax.leaf ":" ":", Syntax.leaf "string_literal" "\"ordered\"", Syntax.leaf ";" ";"]

def orderedExpr : Expr .truth :=
  .or (.order .lt (.name "x") (.name "get()"))
    (.order .gt (.arith .add (.name "x") (.literal ['1'])) (.name "get()"))

theorem isTree_ordered : ∃ n, IsAssertion orderedTree n ∧ IsTree n orderedExpr := by
  have hone : Syntax.IsNumeral ['1'] := ⟨by simp, ⟨'1', _, rfl, rfl, by simp⟩, by decide⟩
  refine ⟨_, ⟨rfl, _, _, rfl, rfl⟩, .or ⟨rfl, _, rfl, rfl⟩ (.order ⟨rfl, _, rfl, rfl⟩ ?_ ?_)
    (.order ⟨rfl, _, rfl, rfl⟩ (.arith ⟨rfl, _, rfl, rfl⟩ ?_ ?_) ?_)⟩
  · exact .name (.inl rfl)
  · exact .name (.inr rfl)
  · exact .name (.inl rfl)
  · exact .literal [] rfl hone (.inl rfl) (by decide +kernel)
  · exact .name (.inr rfl)

theorem condition_x (join : Operand.Join) (names : List String) :
    (condition join (Syntax.leaf "identifier" "x")).run names =
      (Syntax.variableOf "x").run names := by
  rw [Syntax.condition_name (.inl rfl),
    show Text.trim (Syntax.leaf "identifier" "x").text = "x" by decide +kernel]

theorem condition_get (join : Operand.Join) (names : List String) :
    (condition join (Syntax.leaf "method_invocation" "get()")).run names =
      (Syntax.variableOf "get()").run names := by
  rw [Syntax.condition_name (.inr rfl),
    show Text.trim (Syntax.leaf "method_invocation" "get()").text = "get()" by decide +kernel]

theorem condition_ordered (join : Operand.Join) {n : Node} (h : IsAssertion orderedTree n) :
    (condition join n).run [] = .ok (.term (.bin .or (.bin .lt (.var "x") (.var "get()"))
      (.bin .gt (.bin .add (.var "x") (.int 1)) (.var "get()"))), ["x", "get()"]) := by
  obtain ⟨word, rest, -, hchildren⟩ := h.children
  obtain ⟨-, rfl, -⟩ := (by simpa [orderedTree, Syntax.branch] using hchildren)
  have hone : (condition join (Syntax.leaf "decimal_integer_literal" "1")).run ["x", "get()"] =
      .ok (.int 1, ["x", "get()"]) := by
    rw [Syntax.condition_literal rfl]
    exact Syntax.run_liftM_eq_ok.2 ⟨rfl, rfl⟩
  have hadd : Syntax.binary join (Syntax.arithSign .add) (.term (.var "x")) (.int 1) =
      .ok (.term (.bin .add (.var "x") (.int 1))) := by
    rw [Syntax.binary_arith]
    exact Syntax.arith_term_int .add rfl (by decide +kernel)
  refine (Syntax.run_binary ⟨rfl, _, rfl, rfl⟩).2 ⟨_, _, _,
    (Syntax.run_binary ⟨rfl, _, rfl, rfl⟩).2 ⟨_, _, _, (condition_x _ _).trans rfl,
      (condition_get _ _).trans rfl, rfl⟩,
    (Syntax.run_binary ⟨rfl, _, rfl, rfl⟩).2 ⟨_, _, _,
      (Syntax.run_binary
        (show Syntax.IsBinary _ _ _ (Syntax.arithSign .add) from ⟨rfl, _, rfl, rfl⟩)).2
        ⟨_, _, _, (condition_x _ _).trans rfl, hone, hadd⟩,
      (condition_get _ _).trans rfl, rfl⟩, rfl⟩

theorem label_ordered :
    ∃ s, solve Operand.refused .exact [orderedTree] 1 = .ok (some s) ∧ s.label = "tautology" := by
  obtain ⟨n, hstatement, htree⟩ := isTree_ordered
  have hrun :=
    (hstatement.run_negated htree).2 ⟨_, _, condition_ordered Operand.refused hstatement, rfl, rfl⟩
  have hsolve := (solve_one Operand.refused .exact [orderedTree]).trans (congrArg (· >>= _) hrun)
  have hfree : orderedExpr.IsDivisionFree := by
    simp [orderedExpr, Expr.IsDivisionFree, Arith.divides]
  obtain ⟨s, hs, hlabel⟩ := label_eq_tautology_iff Operand.refused Syntax.joinsTruths_refused .exact
    Oracle.isExact_exact Oracle.isDecisive_exact
    hstatement htree hfree hsolve
  refine ⟨s, hs ▸ hsolve, hlabel.2 fun σ => ?_⟩
  have hone : Syntax.literalValue ['1'] = 1 := by decide
  by_cases hlt : σ "x" < σ "get()"
  · simp [orderedExpr, Expr.eval, Syntax.ordered, hlt]
  · have hgt : σ "get()" < σ "x" + 1 := by omega
    simp [orderedExpr, Expr.eval, Syntax.ordered, Syntax.truncated, hone, hlt, hgt]

end Classify

end Assay
