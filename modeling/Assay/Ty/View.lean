import Assay.Descriptor.Parameter
import Assay.Json.View
import Assay.Machine.State
import Assay.Value.Token

/-!
# Views of types and their kin

Types and class names are shown by their texts; parameters, tokens and endings by their parts.
-/

namespace Assay

instance : View Ty := ⟨fun t => .str t.encode⟩

instance : View ClassName := ⟨fun c => .str c.text⟩

instance : View Token := ⟨fun t => view [t.kind.label, t.text]⟩

instance : View Ending := ⟨fun e => .obj [("message", view e.message), ("depth", view e.depth)]⟩

instance : View Parameter :=
  ⟨fun p => match p with
    | .plain t => .str t
    | .object name init => .obj [("name", .str name), ("init", view init)]⟩

end Assay
