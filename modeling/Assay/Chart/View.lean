import Assay.Chart.Draw
import Assay.Json.View

/-!
# Views of charts

A drawing call is shown with its arguments; a scale is shown by its points and by its values at
some probes.
-/

namespace Assay.Chart

mutual

def Argument.document (probes : List Json) : Argument → Json
  | .number x => .obj [("bits", view x)]
  | .text s => .str s
  | .list xs => .arr (documents probes xs)
  | .patch color label => view [color, label]
  | .norm n => .obj [("norm", view [n.low, n.middle, n.high]), ("clip", view n.clip),
      ("at", .arr (probes.map fun j => .arr [j, view (n.value (valueOr 0 (number j)))]))]

def documents (probes : List Json) : List Argument → List Json
  | [] => []
  | x :: xs => x.document probes :: documents probes xs

end

def Call.document (probes : List Json) (c : Call) : Json :=
  .arr [view c.name, .arr (documents probes c.args),
    .obj (c.named.map fun (k, a) => (k, a.document probes))]

end Assay.Chart
