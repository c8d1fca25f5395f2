import Assay.Case
import Assay.Command.Quoted
import Assay.Command.Resolve
import Assay.Console.Outline
import Assay.Decimal.Written
import Assay.Pattern.Parse
import Assay.Verdict.Info
import Assay.Verdict.Response

/-!
# Trials

A program that analyses methods is run on each method of a suite, and its predictions are scored.
-/

namespace Assay

/-- What a program is tried on, and how it is called. -/
structure Bench where
  cases : Except Fault (List Case)
  programs : Programs
  program : List String
  /-- Whether the program is a script, if that is said. -/
  script : Option Bool
  /-- The current folder, and the interpreter of scripts. -/
  folder : String
  interpreter : String

namespace Bench

def command (b : Bench) : Console (List String) :=
  Command.resolve b.folder b.interpreter b.program b.script

/-- The seconds that a program is given. -/
def seconds : Nat := 2

end Bench

namespace Console

/-- The pattern of a filter; an empty one is none. -/
def filter? : Option String → Console (Option Pattern)
  | none => pure none
  | some s => if s.isEmpty then pure none else some <$> ofExcept (Pattern.parse s)

/-- What passes a filter. -/
def passes (filter : Option Pattern) (s : String) : Bool := filter.all (·.found s)

/-- Calls a program, and reports what it complained of and what it printed. -/
def callReported (programs : Programs) (command : List String) : Console String :=
  within ("Run " ++ Command.line command) do
    let (out, _) ← within "Stderr" (call programs command (some Bench.seconds) output)
    within "Stdout" (output out)
    return out

/-- Reports what an analysis says about itself. -/
def introduction (b : Bench) (program : List String) : Console Unit :=
  within "Info" do
    let info ← ofExcept (Info.parse (← callReported b.programs (program ++ ["info"])))
    within "Results" do
      output s!"- group: {info.group}"
      output s!"- name: {info.name}"
      output ("- system: " ++ info.system.getD "None")
      output ("- tags: " ++ (Datum.list (info.tags.map Datum.str)).text)
      output s!"- version: {info.version}"

def predictionLine (query : String) (p : Prediction Float) : String :=
  s!"- {query}: {p.text} {Decimal.fixed p.wager 2}"

/-- Runs a program on a method whose cases have these results, and gives the score. -/
def tryMethod (b : Bench) (program : List String) (m : MethodId) (correct : List String) :
    Console Float :=
  within s!"Case {m.encode}" do
    let out ← callReported b.programs (program ++ [m.encode])
    let response ← ofExcept (Response.parse out)
    within "Results" do
      let sorted := response.predictions.mergeSort fun a b => !(b.1 < a.1)
      sorted.forM fun (q, p) => output (predictionLine q p)
    let score := response.score correct
    output s!"Score {Decimal.fixed score 2}"
    return score

/-- Runs a program on the methods that pass the filter, and gives the sum of the scores. -/
def tryMethods (b : Bench) (program : List String) (filter : Option Pattern) :
    List (MethodId × List String) → Float → Console Float
  | [], total => pure total
  | (m, correct) :: rest, total => do
    if passes filter m.encode then
      tryMethods b program filter rest (total + (← tryMethod b program m correct))
    else tryMethods b program filter rest total

/-- Tries a program on the methods of a suite. -/
def trial (b : Bench) (filter : Option String) : Console Unit := do
  let filter ← filter? filter
  let program ← b.command
  if filter.isNone then introduction b program
  let cases ← ofExcept b.cases
  let total ← tryMethods b program filter (Case.results cases) 0
  output s!"Total {Decimal.fixed total 2}"

end Console

end Assay
