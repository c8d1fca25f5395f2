import Assay.Console.Trial
import Assay.Decimal.Logarithm

/-!
# Measurements

A program that analyses methods is run several times on each method of a suite. Its score and its
time are reported, and its time relative to that of a fixed computation before and after.
-/

namespace Assay.Console

/-- One run on a method. -/
structure Measurement where
  index : Nat
  response : Response Float
  score : Float
  time : Int
  /-- The decimal logarithm of the time as a multiple of the calibrations' mean. -/
  relative : Float
  calibrations : Int × Int

/-- The runs on a method and their means. -/
structure MethodMeasure where
  method : MethodId
  score : Float
  time : Float
  relative : Float
  runs : List Measurement

/-- The measurements of all methods: the sum of their scores, and the means of their times. -/
structure Measures where
  info : Info
  methods : List MethodMeasure
  score : Float
  time : Float
  relative : Float

/-- The time of the `k`-th calibration by a clock that goes on by the given ticks, over and over,
whenever it is read. -/
def calibration (ticks : List Int) (k : Nat) : Int := ticks.getD ((2 * k + 1) % ticks.length) 0

def relativeTime (time first second : Int) : Except Fault Float := do
  Decimal.logarithm ((← Decimal.divide time (first + second)) * 2)

/-- One run, whose calibrations are the `k`-th and the next. -/
def measureOnce (b : Bench) (clock : Nat → Int) (program : List String) (m : MethodId)
    (correct : List String) (k index : Nat) : Console Measurement := do
  say .info s!"Running on {m.encode}, iter {index}"
  let (out, time) ← call b.programs (program ++ [m.encode]) (some Bench.seconds) (say .debug)
  let response ← ofExcept (Response.parse out)
  let relative ← ofExcept (relativeTime time (clock k) (clock (k + 1)))
  return ⟨index, response, response.score correct, time, relative, (clock k, clock (k + 1))⟩

def measureRuns (b : Bench) (clock : Nat → Int) (program : List String) (m : MethodId)
    (correct : List String) : Nat → Nat → Nat → Console (List Measurement)
  | 0, _, _ => pure []
  | n + 1, k, index => do
    let run ← measureOnce b clock program m correct k index
    return run :: (← measureRuns b clock program m correct n (k + 2) (index + 1))

def total (f : Measurement → Float) (runs : List Measurement) : Float :=
  runs.foldl (fun sum r => sum + f r) 0

/-- The runs on a method; `k` calibrations have been made before. -/
def measureMethod (b : Bench) (clock : Nat → Int) (program : List String) (iterations k : Nat)
    (m : MethodId) (correct : List String) : Console MethodMeasure := do
  say .success s!"Running on {m.encode}"
  let runs ← measureRuns b clock program m correct iterations k 0
  if iterations = 0 then fail Decimal.divisionByZero
  let n := iterations.toFloat
  let time ← ofExcept (Decimal.divide (runs.foldl (fun t r => t + r.time) 0) iterations)
  return ⟨m, total Measurement.score runs / n, time, total Measurement.relative runs / n, runs⟩

def measureMethods (b : Bench) (clock : Nat → Int) (program : List String) (iterations : Nat) :
    Nat → List (MethodId × List String) → Console (List MethodMeasure)
  | _, [] => pure []
  | k, (m, correct) :: rest => do
    let measure ← measureMethod b clock program iterations k m correct
    return measure :: (← measureMethods b clock program iterations (k + 2 * iterations) rest)

/-- What an analysis says about itself, if it says it in the right form. -/
def askInfo (b : Bench) (program : List String) : Console (Option Info) := do
  let (out, _) ← call b.programs (program ++ ["info"]) (some Bench.seconds) (say .debug)
  match Info.parse out with
  | .ok info => return some info
  | .error _ =>
    say .error "Expected info, but got:"
    (Text.lines out).forM (say .error)
    return none

/-- Measures a program on the methods of a suite. -/
def measure (b : Bench) (clock : Nat → Int) (iterations : Nat) : Console Measures := do
  let program ← b.command
  let info ← askInfo b program
  let cases ← ofExcept b.cases
  let methods ← measureMethods b clock program iterations 0 (Case.results cases)
  match info with
  | none => fail ⟨.unset, "cannot access local variable 'info'"⟩
  | some info =>
    if methods.isEmpty then fail Decimal.divisionByZero
    let n := methods.length.toFloat
    let sum (f : MethodMeasure → Float) : Float := methods.foldl (fun t m => t + f m) 0
    return ⟨info, methods, sum MethodMeasure.score, sum MethodMeasure.time / n,
      sum MethodMeasure.relative / n⟩

end Assay.Console
