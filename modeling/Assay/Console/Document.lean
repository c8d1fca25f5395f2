import Assay.Console.Measure
import Assay.Console.Replay
import Assay.Json.Access
import Assay.Verdict.View

/-!
# Documents of commands

Other programs and outlines are read from documents, and measurements shown as documents.
-/

namespace Assay

/-- The reply of a program in a table of replies; a program that is not there fails. -/
def Reply.lookup (table : Json) (command : List String) : Reply :=
  match table.get? (" ".intercalate command) with
  | none => .failed
  | some j =>
    if j.flagAt "fail" false then .failed
    else if j.flagAt "timeout" false then .timedOut
    else .done (j.textAt "out") (j.textsAt "err") (j.intAt "time" 0)

namespace Outline

mutual

/-- The item of a document: an object is a block, a list `raise` a fault, and anything else a
message. -/
def Item.ofDocument : Json → Item
  | .obj es => .block ((Json.obj es).textAt "title") (bodyOf es)
  | j =>
    if j == .arr [.str "raise"] then .stop (.malformed "stop")
    else .message (Datum.ofJson j).text

def bodyOf : List (String × Json) → List Item
  | [] => []
  | (k, .arr js) :: es => if k = "body" then ofDocuments js else bodyOf es
  | _ :: es => bodyOf es

def ofDocuments : List Json → List Item
  | [] => []
  | j :: js => Item.ofDocument j :: ofDocuments js

end

end Outline

namespace Console

/-- A number with six places. -/
def six (x : Float) : Json := .str (Decimal.fixed x 6)

instance : View Measurement :=
  ⟨fun m => .arr [view m.index, view m.response, view m.score, view m.time, six m.relative,
    view [m.calibrations.1, m.calibrations.2]]⟩

instance : View MethodMeasure :=
  ⟨fun m => .obj [("score", view m.score), ("time", view m.time), ("relative", six m.relative),
    ("iterations", view m.runs)]⟩

instance : View Measures :=
  ⟨fun m => .obj [("info", view m.info), ("score", view m.score), ("time", view m.time),
    ("relative", six m.relative),
    ("bymethod", .obj (m.methods.map fun k => (k.method.encode, view k)))]⟩

end Console

end Assay
