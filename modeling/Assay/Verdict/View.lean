import Assay.Json.View
import Assay.Verdict.Info
import Assay.Verdict.Response

/-!
# Views of verdicts

A prediction is shown with what it earns if the outcome happens and if it does not.
-/

namespace Assay

instance : View (Prediction Float) :=
  ⟨fun p => .obj [("wager", view p.wager), ("prob", view p.probability),
    ("hit", view (p.score true)), ("miss", view (p.score false)), ("str", view p.text)]⟩

instance : View Info :=
  ⟨fun i => .obj [("name", view i.name), ("version", view i.version), ("group", view i.group),
    ("tags", view i.tags), ("system", view i.system)]⟩

/-- A response is shown by its wagers. -/
instance : View (Response Float) :=
  ⟨fun r => .obj (r.predictions.map fun (q, p) => (q, view p.wager))⟩

end Assay
