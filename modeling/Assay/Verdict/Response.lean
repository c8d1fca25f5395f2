import Assay.Text.Lines
import Assay.Verdict.Prediction

/-!
# Responses

The answer of an analysis about one method: lines `query;prediction`. Other lines are passed over,
and the last line for a query counts.
-/

namespace Assay

/-- The outcomes that can be predicted. -/
def queries : List String :=
  ["*", "assertion error", "divide by zero", "null pointer", "ok", "out of bounds"]

structure Response (α : Type) where
  /-- One prediction for a query, in order of first appearance. -/
  predictions : List (String × Prediction α)

namespace Response

variable {α : Type}

/-- Sets the prediction of a query. -/
def put (query : String) (p : Prediction α) :
    List (String × Prediction α) → List (String × Prediction α)
  | [] => [(query, p)]
  | (q, old) :: rest => if q = query then (q, p) :: rest else (q, old) :: put query p rest

/-- The query and the prediction of a well-formed line. -/
def line? (line : String) : Option (String × String) :=
  match Text.split ';' line with
  | [query, prediction] => if queries.contains query then some (query, prediction) else none
  | _ => none

/-- Reads lines into predictions. -/
def readLines [Scale α] : List String → List (String × Prediction α) →
    Except Fault (List (String × Prediction α))
  | [], acc => .ok acc
  | l :: ls, acc =>
    match line? l with
    | some (query, prediction) => do readLines ls (put query (← Prediction.read prediction) acc)
    | none => readLines ls acc

/-- Reads a response. -/
def read [Scale α] (s : String) : Except Fault (Response α) := do
  return ⟨← readLines (Text.lines s) []⟩

/-- Reads a response in floating-point numbers. -/
def parse (s : String) : Except Fault (Response Float) := read s

/-- The sum of what the predictions earn. -/
def score [Scale α] (r : Response α) (correct : List String) : α :=
  r.predictions.foldl (fun total p => Scale.add total (p.2.score (correct.contains p.1)))
    (Scale.ofNat 0)

end Response

end Assay
