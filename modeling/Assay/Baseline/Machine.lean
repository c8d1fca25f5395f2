import Assay.Baseline.Arguments
import Assay.Constraint.Oracle
import Assay.Machine.Run
import Assay.Symbolic.Explore

/-!
# The machine and the explorer as programs

The machine runs a method on an input and prints how that ends; the explorer prints the branches of
a method.
-/

namespace Assay.Baseline

/-- The most steps of a run. -/
def mostSteps : Nat := 100000

/-- Runs until the end, or for `fuel` steps. -/
def runFor (lib : Library) : Nat → Outcome → Except Fault (Option Ending)
  | _, .ended e => .ok (some e)
  | 0, _ => .ok none
  | _ + 1, .lost _ => .error Machine.lostState
  | fuel + 1, .running s => do runFor lib fuel (← Machine.step lib false s)

/-- The names of the variables that stand for parameters: a letter for each character. -/
def letters (params : List Char) : List String :=
  (List.range params.length).map fun i => String.singleton (Char.ofNat ('a'.toNat + i))

/-- The characters between the first opening and the first closing parenthesis. -/
def between (method : String) : Except Fault (List Char) :=
  let cs := method.toList
  match Text.cutAtFirst? '(' cs, Text.cutAtFirst? ')' cs with
  | some (before, _), some (upTo, _) => .ok (upTo.drop (before.length + 1))
  | _, _ => .error (.malformed "substring not found")

/-- Prints the branches of the method in the first argument. -/
def explore (lib : Library) (args : List String) : Console Unit := do
  let text ← argument args 0
  let params ← Console.ofExcept (between text)
  let branches ← Console.ofExcept do
    let id ← MethodId.decode text
    Symbolic.analyse Term.text Constraint.decide lib id (letters params) 50
  branches.forM Console.print

/-- Prints how the method in the first argument ends on the input in the second. -/
def execute (lib : Library) (args : List String) : Console Unit := do
  let (id, input) ← methodAndInput args 0
  let text ← argument args 1
  let ending ← Console.ofExcept do
    runFor lib mostSteps (.running (← Machine.start lib false id input text))
  Console.print (match ending with
    | some e => s!"{e.message}:{e.depth}"
    | none => "*")

/-- Runs the method, or explores it if that is asked for. -/
def machine (lib : Library) (args : List String) : Console Unit :=
  if args.contains "--analyse" then explore lib args else execute lib args

/-- Prints the branches of a method with one variable as a list. -/
def explorer (lib : Library) (args : List String) : Console Unit := do
  let (id, _) ← methodAndInput args 0
  let branches ← Console.ofExcept
    (Symbolic.analyse Term.text Constraint.decide lib id ["x"] 150)
  Console.print (Datum.list (branches.map Datum.str)).text

end Assay.Baseline
