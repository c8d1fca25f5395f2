import Assay.Datum
import Assay.Decimal.Logarithm
import Assay.Log
import Assay.Stats.Kind
import Assay.Text.Csv

/-!
# Experiments

The results of the tools of a group, taken from the document of an experiment; and how many points
can be won by the table of the cases.
-/

namespace Assay.Stats

/-- How many points can be won: one for each outcome of each method, where the last row and the
first column do not count. -/
def maxPoints (table : Option String) : Except Fault Int :=
  match table with
  | none => .error ⟨.noFile, "stats/distribution.csv"⟩
  | some s =>
    match Csv.rows s with
    | [] => .error (.outOfRange "list index out of range")
    | row :: rest => .ok (rest.length * ((row.length : Int) - 1))

/-- A result of a tool on a method. -/
structure Result where
  group : Json
  tool : String
  method : Json
  score : Float
  kind : Kind
  /-- The time in milliseconds. -/
  absolute : Float
  /-- The decimal logarithm of the relative time. -/
  relative : Float

/-- What an experiment holds: the results of its first tool, if it has one. -/
abbrev Results := Option (List Result)

abbrev Work (α : Type) : Type := ExceptT Fault (StateM (List Message)) α

def say (level : Level) (text : String) : Work Unit :=
  modify fun log => log ++ [⟨level, text⟩]

def notNumber (j : Json) : Fault := .wrongShape s!"'{j.shape}' is not a number"

/-- The quotient of a number by a whole one. -/
def divided (j : Json) (n : Int) : Except Fault Float :=
  match j with
  | .int m => Decimal.divide m n
  | .bool b => Decimal.divide (if b then 1 else 0) n
  | .float x => .ok (x / Float.ofInt n)
  | j => .error (notNumber j)

def logarithmOf : Json → Except Fault Float
  | .int n => Decimal.intLogarithm n
  | .bool b => Decimal.intLogarithm (if b then 1 else 0)
  | .float x => Decimal.logarithm x
  | j => .error (notNumber j)

def numberOf : Json → Except Fault Float
  | .int n => .ok (Float.ofInt n)
  | .bool b => .ok (if b then 1 else 0)
  | .float x => .ok x
  | j => .error (notNumber j)

/-- The year of a time in seconds since the start of 1970. -/
def yearOf (seconds : Int) : Int :=
  let days := seconds.fdiv 86400 + 719468
  let era := days.fdiv 146097
  let day := days - era * 146097
  let year := (day - day / 1460 + day / 36524 - day / 146096) / 365
  let rest := day - (365 * year + year / 4 - year / 100)
  -- The years of this reckoning begin in March, and January is ten months later.
  year + era * 400 + (if 306 ≤ rest then 1 else 0)

/-- A year that times can lie in. -/
def isYear (year : Int) : Bool := 1 ≤ year && year ≤ 9999

/-- The time of an experiment has to lie in the years from 1 to 9999, and so does that of the day
before. -/
def checkTime (j : Json) : Except Fault Unit := do
  let seconds ← divided j 1000
  if Decimal.isNaN seconds then .error (.malformed "Invalid value NaN (not a number)")
  else if 9.2e18 < seconds.abs then
    .error ⟨.overflow, "timestamp out of range for platform time_t"⟩
  else
    let magnitude : Int := seconds.floor.abs.toUInt64.toNat
    let time := if seconds < 0 then -magnitude else magnitude
    match [yearOf time, yearOf (time - 86400)].find? fun y => !isYear y with
    | none => .ok ()
    | some year => .error (.malformed s!"year {year} is out of range")

def textOf (j : Json) : String := (Datum.ofJson j).text

/-- The highest score that a method can give. -/
def highestScore : Float := 6

/-- A result, unless it is passed over. -/
def result? (group : Json) (tool : String) (context r : Json) : Work (Option Result) := do
  let method ← ofExcept (r.item "method")
  let id := textOf group ++ "/" ++ tool ++ "/" ++ textOf method
  let time ← ofExcept (r.item "time")
  if time == .str "NaN" then
    say .warning s!"Found NaN in time, skipping {id}"
    return none
  else
    let absolute ← ofExcept (divided time 1000000)
    let relative ← ofExcept (logarithmOf (← ofExcept (r.item "relative")))
    let score ← ofExcept (r.item "score")
    let points ← ofExcept (numberOf score)
    if highestScore < points then
      say .debug (textOf r)
      say .warning s!"Found score {textOf score} is higher than 6, skipping {id}"
      return none
    else
      let kind ← ofExcept (Kind.ofTechnologies (← ofExcept (context.item "technologies")))
      return some ⟨group, tool, method, if points < 1 then 1 else points, kind, absolute, relative⟩

def resultsOf (group : Json) (tool : String) (context : Json) : List Json → Work (List Result)
  | [] => pure []
  | r :: rs => do
    match ← result? group tool context r with
    | some result => return result :: (← resultsOf group tool context rs)
    | none => resultsOf group tool context rs

/-- The results of the first tool of an experiment. -/
def analyse (experiment : Json) : Work Results := do
  ofExcept (checkTime (← ofExcept (experiment.item "timestamp")))
  let group ← ofExcept (experiment.item "group_name")
  match ← ofExcept (experiment.item "tools") with
  | .obj [] => return none
  | .obj ((tool, context) :: _) =>
    let rs ← ofExcept do (← context.item "results").elements
    return some (← resultsOf group tool context rs)
  | j => throw (.noMember s!"'{j.shape}' object has no attribute 'items'")

end Assay.Stats
