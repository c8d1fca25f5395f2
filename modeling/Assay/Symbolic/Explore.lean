import Assay.Constraint.Oracle
import Assay.Symbolic.Step
import Assay.Text.Cut

/-!
# Exploring the branches of a method

All paths up to a number of steps. Each path that has conditions is a branch; it is satisfiable if
its conditions can hold together, and only satisfiable paths are followed. Branches are told apart
by their texts, so what is found depends on how terms are written.
-/

namespace Assay

namespace Symbolic

/-- The conditions of a path, and whether they can hold together. -/
structure Branch where
  path : List Term
  sat : Bool
  deriving Inhabited

namespace Branch

def status (sat : Bool) : String := if sat then "SAT" else "UNSAT"

def text (print : Term.Printer) (b : Branch) : String :=
  s!"Branch: {Term.listText print b.path}, Status: {status b.sat}"

end Branch

/-- The texts of the branches found so far. -/
abbrev Found := List String

/-- Adds a branch, unless a branch with the text of its path is there already. -/
def addBranch (print : Term.Printer) (b : Branch) (found : Found) : Found :=
  let shown := Term.listText print b.path
  if found.any (Text.hasWord shown) then found else found ++ [b.text print]

/-- Looks at the successors of a path in turn: their branches are added, and those that can be
followed are kept, with their paths. -/
def survey (print : Term.Printer) (oracle : Oracle) (path : List Term) :
    List Successor → Found → Found × List (Successor × List Term)
  | [], found => (found, [])
  | s :: ss, found =>
    let new := path ++ s.conditions
    let sat := (oracle new).isSat
    let found := if new.isEmpty then found else addBranch print ⟨new, sat⟩ found
    let (found, kept) := survey print oracle path ss found
    (found, if sat then (s, new) :: kept else kept)

/-- The fault of a step, which names the instruction if there is one. -/
def stepFault (lib : Library) (p : Place) (e : Fault) : Fault :=
  match (do let i ← Machine.fetch lib p; i.line : Except Fault String) with
  | .ok line => .malformed s!"Symbolic Interpreter error: {e.message} in {line}"
  | .error e => e

/-- Explores what can be reached from a state in `depth + 1` steps. Of several successors the last
one is explored first. -/
def explore (print : Term.Printer) (oracle : Oracle) (lib : Library) :
    Nat → Place → State → List Term → Found → Except Fault Found
  | depth, p, s, path, found =>
    match step lib p s with
    | .error e => .error (stepFault lib p e)
    | .ok successors =>
      let (found, kept) := survey print oracle path successors found
      match depth with
      | 0 => .ok found
      | depth + 1 =>
        kept.reverse.foldlM (fun found (s, path) =>
          explore print oracle lib depth s.place s.state path found) found

/-- The variables named by a list; a name with blanks stands for several. -/
def variableNames (names : List String) : List String := Text.split ' ' (" ".intercalate names)

/-- The branches of a method whose parameters have these names. -/
def analyse (print : Term.Printer) (oracle : Oracle) (lib : Library) (method : MethodId)
    (names : List String) (depth : Nat) : Except Fault (List String) :=
  explore print oracle lib (depth - 1) ⟨method, 0⟩ (.ofNames (variableNames names)) [] []

end Symbolic

end Assay
