import Assay.Chart.Basic
import Assay.Chart.Report

/-!
# Drawing reports

One report is drawn as two rows of bars, the scores and the times of its methods; several are drawn
as points, scores against relative times. What was drawn before a fault stays drawn.
-/

namespace Assay.Chart

/-- What has been drawn and printed. -/
structure Sheet where
  calls : List Call
  printed : List String

abbrev Sketch (α : Type) : Type := ExceptT Fault (StateM Sheet) α

namespace Sketch

def draw (name : String) (args : List Argument) (named : List (String × Argument)) : Sketch Unit :=
  modify fun s => { s with calls := s.calls ++ [⟨name, args, named⟩] }

def print (line : String) : Sketch Unit :=
  modify fun s => { s with printed := s.printed ++ [line] }

end Sketch

open Sketch

/-- The smaller number; a number that is none wins. -/
def lower (a b : Float) : Float :=
  if Decimal.isNaN a then a else if Decimal.isNaN b then b else if b < a then b else a

def higher (a b : Float) : Float :=
  if Decimal.isNaN a then a else if Decimal.isNaN b then b else if a < b then b else a

def least : List Float → Except Fault Float
  | [] => .error (.malformed
      "zero-size array to reduction operation minimum which has no identity")
  | x :: xs => .ok (xs.foldl lower x)

def greatest : List Float → Except Fault Float
  | [] => .error (.malformed
      "zero-size array to reduction operation maximum which has no identity")
  | x :: xs => .ok (xs.foldl higher x)

/-- The classes of problems and their colours. -/
def colors : List (String × String) :=
  [("Simple", "seagreen"), ("Calls", "turquoise"), ("Loops", "mediumslateblue"),
    ("Arrays", "violet"), ("Tricky", "darkviolet")]

/-- The colour of the first class of problems that a class name mentions. -/
def colorOf (owner : String) : String :=
  ((colors.find? fun c => Text.hasWord c.1 owner).map Prod.snd).getD "red"

def titleText : String := "JPAMB Test Scores"

def title : Sketch Unit := draw "title" [.text titleText] [("pad", .number 15)]

def legend : List Argument :=
  ["Simple", "Arrays", "Calls", "Loops", "Tricky"].map fun k => .patch (colorOf k) k

/-- A row of bars and its range. -/
def bars (row : Float) (labels owners colors : List String) (heights : List Float)
    (what : String) : Sketch Unit := do
  draw "subplot" [.number 2, .number 1, .number row] []
  draw "bar" [.texts labels, .numbers heights] [("color", .texts colors), ("label", .texts owners)]
  draw "ylabel" [.text what] []

/-- The range that encloses numbers of both signs. -/
def reach (xs : List Float) : Except Fault Float := do
  return (← greatest (xs.map Float.abs)) * 1.05

/-- Draws the bars of a report. -/
def drawReport (r : Report) : Sketch Unit := do
  let labels := r.methods.map fun (m, _) => m.signature.encode
  let owners := r.methods.map fun (m, _) => m.owner.text
  title
  draw "legend" [] [("handles", .list legend)]
  draw "xticks" [.list []] []
  draw "yticks" [.list []] []
  let times ← ofExcept (r.methods.mapM fun (_, m) => number m.time)
  let scores ← ofExcept (r.methods.mapM fun (_, m) => number m.score)
  let colors := (owners.zip scores).map fun (o, s) => if leastScore < s then colorOf o else "red"
  bars 1 labels owners colors scores "Test Score"
  draw "xticks" [.list []] []
  let top ← ofExcept (reach scores)
  draw "ylim" [.number (-top), .number top] []
  bars 2 labels owners colors times "Test Time"
  draw "xticks" [] [("rotation", .number 80)]
  let top ← ofExcept (reach times)
  draw "ylim" [.number 0, .number top] []
  draw "show" [] []

/-- The size of a point: larger for high scores in short times, but not below a least size. -/
def pointSize (score time shortest longest : Float) : Float :=
  let share := (time - shortest) / (longest - shortest)
  let size := 100 * score * (1 - share * 0.5)
  if 100 < size then size else 100

/-- Draws points for several reports. -/
def drawPoints (scores times : List Float) (labels : List String) : Sketch Unit := do
  let shortest ← ofExcept (least times)
  let longest ← ofExcept (greatest times)
  let sizes := (scores.zip times).map fun (s, t) => pointSize s t shortest longest
  let lowest ← ofExcept (least scores)
  let highest ← ofExcept (greatest scores)
  draw "scatter" [] [("x", .numbers scores), ("y", .numbers times), ("s", .numbers sizes),
    ("c", .numbers scores), ("cmap", .text "tab20b"), ("clim", .numbers [shortest, highest]),
    ("norm", .norm ⟨lowest, 0, highest, true⟩)]
  (labels.zip (scores.zip times)).forM fun (label, s, t) =>
    draw "annotate" [.text label, .numbers [s, t]] []
  title
  draw "xlabel" [.text "Test Score"] []
  draw "ylabel" [.text "Analyzer Relative Execution Time"] []
  draw "show" [] []

/-- Reads the reports among files; one that cannot be read is passed over. -/
def readReports (cases : Except Fault (List Case)) (folder : String) :
    List (String × String) → Sketch (List (Report × String))
  | [] => pure []
  | (name, text) :: rest => do
    if name.endsWith ".json" then
      match Report.read cases (folder ++ "/" ++ name) text with
      | .ok r =>
        let label ← ofExcept r.label
        return (r, label) :: (← readReports cases folder rest)
      | .error f =>
        if Report.isUnreadable f then
          print s!"Failed to process {name}"
          readReports cases folder rest
        else throw f
    else readReports cases folder rest

/-- Draws a folder of reports, and one report of it, as asked for. -/
def plot (cases : Except Fault (List Case)) (folder : String) (files : List (String × String))
    (all : Bool) (one : Option String) : Sketch Unit := do
  if all then
    let reports ← readReports cases folder files
    let times ← ofExcept (reports.mapM fun (r, _) => number r.total.relative)
    let scores ← ofExcept (reports.mapM fun (r, _) => number r.total.score)
    drawPoints scores times (reports.map Prod.snd)
  match one with
  | none => pure ()
  | some name =>
    let r ← ofExcept (Report.read cases (folder ++ "/" ++ name) ((files.lookup name).getD ""))
    drawReport r

end Assay.Chart
