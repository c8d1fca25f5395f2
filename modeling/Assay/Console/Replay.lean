import Assay.Console.Trial

/-!
# Replays

A program that runs methods is run on each case of a suite, and its answers are compared with the
results that the cases expect. A stepwise replay stops at the first difference and takes up there
the next time.
-/

namespace Assay.Console

/-- The file that holds the case at which a stepwise replay stopped. -/
def stepwiseFile : String := ".jpamb-stepwise"

/-- The case to take up at; a file that does not hold one is passed over. -/
def resumeCase : Console (Option Case) := do
  match ← file? stepwiseFile with
  | none => return none
  | some text =>
    match Case.decode (Text.fromFile text) with
    | .ok c => return some c
    | .error f =>
      if f.kind = .malformed then
        say .warning f.message
        return none
      else fail f

/-- The answer in what a program printed: its last line, up to the first colon. -/
def answerIn (out : String) : Except Fault String :=
  match (Text.lines out).getLast? with
  | none => .error (.outOfRange "list index out of range")
  | some line =>
    match (Text.trim line).toList.takeWhile (· ≠ ':') with
    | [] => .error (.noMember "'NoneType' object has no attribute 'group'")
    | answer => .ok (String.ofList answer)

/-- The answer of a program to a case. One that takes too long runs forever. -/
def answer (b : Bench) (program : List String) (c : Case) : Console String := do
  let work : Console String := do
    let out ← callReported b.programs
      (program ++ [c.method.encode, ← ofExcept c.input.encode])
    ofExcept (answerIn out)
  match ← attempt work with
  | .ok a => return a
  | .error f =>
    if f.kind = .timedOut then return "*"
    else if f.kind = .commandFailed then
      say .error f.message
      return "failure"
    else fail f

/-- How many cases have been replayed, and how many answers were as expected. -/
structure Tally where
  right : Nat
  count : Nat

/-- Replays a case. A stepwise replay stops if the answer differs. -/
def replayCase (b : Bench) (program : List String) (stepwise : Bool) (c : Case) (t : Tally) :
    Console Tally := do
  within s!"Case {← ofExcept c.text}" do
    let got ← answer b program c
    output s!"Expected {Text.quote c.result} and got {Text.quote got}"
    if c.result = got then return ⟨t.right + 1, t.count + 1⟩
    else if stepwise then
      writeFile stepwiseFile (← ofExcept c.encode)
      exit (-1)
    else return ⟨t.right, t.count + 1⟩

/-- Replays cases, from the one to take up at if there is one. -/
def replayFrom (b : Bench) (program : List String) (stepwise : Bool) (filter : Option Pattern) :
    Option Case → List Case → Tally → Console Tally
  | _, [], t => pure t
  | resume, c :: cs, t => do
    if resume.any (· != c) then replayFrom b program stepwise filter resume cs t
    else if filter.isSome && !passes filter (← ofExcept c.text) then
      replayFrom b program stepwise filter none cs t
    else
      replayFrom b program stepwise filter none cs (← replayCase b program stepwise c t)

/-- Replays the cases of a suite. -/
def replay (b : Bench) (stepwise : Bool) (filter : Option String) : Console Unit := do
  let filter ← filter? filter
  let program ← b.command
  let resume ← if stepwise then resumeCase else pure none
  let cases ← ofExcept b.cases
  let t ← replayFrom b program stepwise filter resume cases ⟨0, 0⟩
  removeFile stepwiseFile
  output s!"Total {t.right}/{t.count}"

end Assay.Console
