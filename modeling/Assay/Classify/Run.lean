import Assay.Catalog.Relabel
import Assay.Classify.Invoke

/-!
# Classification

Assertions that their form did not classify are given to the solver, and those that can fail are
then tried: the method is run without assertions on values for which the assertion fails. If
that run ends well the assertion is useless, else it is useful.
-/

namespace Assay.Classify

open Fuzz (Draw)

/-- What a classification needs: a solver, which joins plain truth values and answers questions, and
a machine for each method. -/
structure Setting where
  join : Operand.Join
  oracle : Oracle
  run : String → Fuzz.Runner
  /-- Whether the solver is used. -/
  solver : Bool
  /-- Whether methods are run. -/
  dynamic : Bool

/-- How often a run is repeated that ends at once. -/
def invokeAttempts : Nat := 10

/-- A run failed before it had a result. -/
def noOutput : Fault :=
  ⟨.unset, "cannot access local variable 'output' where it is not associated with a value"⟩

/-- Runs a method on a model; the label and the depth of the run. -/
def tryModel (run : String → Fuzz.Runner) (id : String) (names : List String) (s : Solved) :
    Draw (String × Int) := do
  if s.status ≠ .sat ∨ !s.informative then
    Draw.fail (.violated s!"Not a 'contingent' assertion {id}")
  else
    let params ← liftM (Parameter.ofMethodPlain id)
    let out ← tryCatch (invoke (run id) s params names invokeAttempts) fun _ => throw noOutput
    return (if out.message = "ok" then "useless" else "useful", out.depth)

/-- Tries model after model as long as the runs end at once. -/
def tryModels (g : Setting) (id : String) (names : List String) (node : Node) :
    Nat → Nat → Solved → Draw String
  | 0, _, _ => return "useful"
  | left + 1, attempts, s => do
    let (label, depth) ← tryModel g.run id names s
    if label ≠ "useful" ∨ depth ≠ 0 then return label
    else
      match ← liftM (solve g.join g.oracle [node] attempts) with
      | some s => tryModels g id names node left (attempts + 1) s
      | none => Draw.fail noOutput

/-- The label of an assertion. -/
def label (g : Setting) (m : Method) (a : Assertion) : Draw String := do
  if a.label ≠ unclassified ∨ !g.solver then return a.label
  else
    match ← liftM (solve g.join g.oracle [a.node] 1) with
    | none => Draw.fail noOutput
    | some s =>
      if s.label = "contingent" ∧ g.dynamic then
        match m.id with
        | none => Draw.fail (.noMember "'Method' object has no attribute 'method_id'")
        | some id => tryModels g id (m.params.map Variable.name) a.node 8 2 s
      else return s.label

/-- Some assertion was not classified by its form. -/
def anyUnclassified (c : Catalog) : Bool :=
  c.any fun k => k.methods.any fun m => m.assertions.any fun a => a.label == unclassified

/-- Classifies a catalog. The time per assertion is averaged, so there has to be one. -/
def run (g : Setting) (c : Catalog) : StateM Fuzz.Source (Catalog × Except Fault Unit) := do
  let (relabelled, r) ← c.relabel fun _ m a => (label g m a).run
  match r with
  | .error f => return (relabelled, .error f)
  | .ok () =>
    if anyUnclassified c then return (relabelled, .ok ())
    else return (relabelled, .error ⟨.divisionByZero, "division by zero"⟩)

end Assay.Classify
