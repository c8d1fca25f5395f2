import Assay.Constraint.Formula

/-!
# Oracles

An oracle answers whether conditions can all hold together, with values for the variables if they
can. `Constraint.decide` is one for linear conditions.
-/

namespace Assay

/-- Values for the variables of conditions. -/
structure Model where
  numbers : List (String × Int)
  truths : List (String × Bool)
  deriving Inhabited

namespace Model

def empty : Model := ⟨[], []⟩

def isEmpty (m : Model) : Bool := m.numbers.isEmpty && m.truths.isEmpty

/-- The model with a value for each of these variables, zero where it had none. -/
def complete (m : Model) (names : List String) : Model :=
  { m with numbers := m.numbers ++ (names.filter fun x => (m.numbers.lookup x).isNone).map (·, 0) }

/-- The assignment of a model, in which all else is zero and false. -/
def assignment (m : Model) : Assignment :=
  ⟨fun x => (m.numbers.lookup x).getD 0, fun x => (m.truths.lookup x).getD false⟩

end Model

/-- The answer of an oracle. -/
inductive Satisfiable where
  | sat (m : Model)
  | unsat
  | unknown
  deriving Inhabited

namespace Satisfiable

def isSat : Satisfiable → Bool
  | sat _ => true
  | _ => false

end Satisfiable

abbrev Oracle : Type := List Term → Satisfiable

namespace Constraint

/-- Decides linear conditions. The model has a value for each variable that matters: one that
drops out of every comparison has none. -/
def decide : Oracle := fun ts =>
  let names := (ts.flatMap Term.names).eraseDups
  let start : Conversion := ⟨names, names.length, [], false⟩
  let (formulas, c) := (ts.mapM (Convert.formula true)).run start
  let whole := formulas.foldl Formula.both (.truth true)
  match search c.next ⟨[], [], [], []⟩ (c.sides ++ [whole]) with
  | (.sat m, fs) =>
    let used := whole.vars ++ c.sides.flatMap Formula.vars
    let numbers := names.filterMap fun x =>
      let i := names.idxOf x
      if i ∈ used then some (x, (m.lookup i).getD 0) else none
    let flags := whole.flags ++ c.sides.flatMap Formula.flags
    let truths := flags.eraseDups.map fun x => (x, (fs.lookup x).getD false)
    let model : Model := ⟨numbers, truths⟩
    if c.loose && !(ts.all fun t => t.truthValue? model.assignment == some true) then .unknown
    else .sat model
  | (.unsat, _) => .unsat
  | (.unknown, _) => .unknown

end Constraint

end Assay
