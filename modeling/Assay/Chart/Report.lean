import Assay.Case
import Assay.Json.Reader

/-!
# Reports

The document that a measurement leaves behind: what the analysis says about itself, its marks, and
its marks for each method of the suite.
-/

namespace Assay.Chart

/-- A score, a time, and a relative time. -/
structure Marks where
  score : Json
  time : Json
  relative : Json

/-- The number of a document; truth values count as numbers. -/
def number : Json → Except Fault Float
  | .int n => .ok (Float.ofInt n)
  | .float x => .ok x
  | .bool b => .ok (if b then 1 else 0)
  | j => .error (.wrongShape s!"'{j.shape}' is not a number")

/-- The least score that counts. -/
def leastScore : Float := -100

/-- A score, raised to the least one. -/
def raised (j : Json) : Except Fault Json := do
  return if (← number j) < leastScore then .int (-100) else j

def Marks.ofJson (j : Json) : Except Fault Marks := do
  let score ← raised (← j.item "score")
  let time ← j.item "time"
  return ⟨score, time, ← j.item "relative"⟩

structure Report where
  info : Json
  total : Marks
  /-- The marks of the methods of a suite, in their order. -/
  methods : List (MethodId × Marks)

namespace Report

/-- A text could not be taken for what it should be. -/
def isUnreadable (f : Fault) : Bool :=
  f.kind = .malformed || f.kind = .malformedJson || f.kind = .badEncoding

def ofJson (cases : Except Fault (List Case)) (j : Json) : Except Fault Report := do
  let info ← j.item "info"
  let methods ← j.item "bymethod"
  let total ← Marks.ofJson j
  let marks ← (Case.results (← cases)).mapM fun (m, _) => do
    return (m, ← Marks.ofJson (← methods.item m.encode))
  return ⟨info, total, marks⟩

/-- Reads a report. What cannot be read is named by its path, or shown once it is a document. -/
def read (cases : Except Fault (List Case)) (path text : String) : Except Fault Report :=
  match Json.parse text with
  | .error _ => .error (.malformed s!"Cannot read {path}")
  | .ok j =>
    match ofJson cases j with
    | .ok r => .ok r
    | .error f =>
      if isUnreadable f then .error (.malformed s!"Cannot read {(Datum.ofJson j).text}")
      else .error f

/-- The label of a report: the name of the analysis and its tags. -/
def label (r : Report) : Except Fault String := do
  let part : Json → Except Fault String
    | .str s => .ok s
    | j => .error (.wrongShape s!"'{j.shape}' is not a text")
  let name ← part (← r.info.item "name")
  let tags ← (← (← r.info.item "tags").elements).mapM part
  return name ++ ": " ++ ", ".intercalate tags

end Report

end Assay.Chart
