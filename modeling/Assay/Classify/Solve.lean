import Assay.Constraint.Oracle
import Assay.Syntax.Condition

/-!
# Counterexamples to assertions

Whether assertions can fail, and for which values. Further models are found by excluding those
already known; from every other model on, all variables have to be positive.
-/

namespace Assay.Classify

inductive Status where
  | sat
  | unsat
  | unknown
  deriving DecidableEq, Inhabited

/-- The answer of a search for values that make the assertions fail. -/
structure Solved where
  status : Status
  /-- The variables of the assertions, in order of appearance. -/
  names : List String
  model : Option Model
  deriving Inhabited

/-- The expression of an assertion. -/
def expressionOf? (assertion : Node) : Option Node :=
  assertion.children.find? fun c => c.kind ≠ "assert" ∧ c.kind ≠ ";"

/-- The negated assertions, with their variables. -/
def negated (join : Operand.Join) : List Node → Syntax.Naming (List Term)
  | [] => pure []
  | a :: as =>
    match expressionOf? a with
    | none => negated join as
    | some e => do
      let d ← Syntax.condition join e
      let t ← liftM (Operand.truthOf d)
      return .not t :: (← negated join as)

/-- Some variable has another value than in the model. -/
def differs (m : Model) (x : String) (xs : List String) : Term :=
  let distinct (x : String) : Term := .bin .ne (.var x) (.int ((m.numbers.lookup x).getD 0))
  xs.foldl (fun t y => .bin .or t (distinct y)) (distinct x)

/-- Every variable is positive. -/
def positive (names : List String) : List Term := names.map fun x => .bin .ge (.var x) (.int 1)

/-- Looks for further models, `round` of which are known, the last one being `m`. Excluding a model
completes it. -/
def further (oracle : Oracle) (names : List String) : Nat → Nat → List Term → Model → Model
  | 0, _, _, m => m
  | left + 1, round, ts, m =>
    match names with
    | [] => m
    | x :: xs =>
      let ts := ts ++ (if round % 2 = 0 then positive names else []) ++ [differs m x xs]
      match oracle ts with
      | .sat m => further oracle names left (round + 1) ts m
      | _ => m.complete names

/-- The search for the model with the number `attempts`; if there are fewer, the last one counts.
With no attempt there is no answer. -/
def solve (join : Operand.Join) (oracle : Oracle) (assertions : List Node) (attempts : Nat) :
    Except Fault (Option Solved) := do
  let (ts, names) ← (negated join assertions).run []
  match attempts with
  | 0 => return none
  | left + 1 =>
    match oracle ts with
    | .sat m => return some ⟨.sat, names, some (further oracle names left 0 ts m)⟩
    | .unsat => return some ⟨.unsat, names, none⟩
    | .unknown => return some ⟨.unknown, names, none⟩

/-- A model that says something about a variable. -/
def Solved.informative (s : Solved) : Bool :=
  match s.model with
  | some m => !m.isEmpty
  | none => false

/-- What an answer says about an assertion: it always holds, it can fail, or it always fails. -/
def labelOf (status : Status) (informative : Bool) : String :=
  match status with
  | .unsat => "tautology"
  | .sat => if informative then "contingent" else "contradiction"
  | .unknown => "unclassified"

def Solved.label (s : Solved) : String := labelOf s.status s.informative

end Assay.Classify
