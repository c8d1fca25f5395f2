import Assay.Json.View
import Assay.Stats.Experiment

/-!
# Views of results
-/

namespace Assay.Stats

instance : View Result :=
  ⟨fun r => .obj [("group", r.group), ("tool", view r.tool), ("method", r.method),
    ("kind", view r.kind.name), ("score", view r.score), ("absolute", view r.absolute),
    ("relative", view (Decimal.fixed r.relative 6))]⟩

end Assay.Stats
