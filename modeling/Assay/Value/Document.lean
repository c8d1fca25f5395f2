import Assay.Datum
import Assay.Json.Access
import Assay.Ty.Descriptor

/-!
# Values from documents

A document `t, v` for a typed value: `t` is the encoding of its type, a list `v` is a tuple and an
object has typed entries.
-/

namespace Assay

/-- The type of an encoding. -/
def Ty.ofEncoding : List Char → Ty
  | '[' :: cs => .array (ofEncoding cs)
  | 'L' :: cs => .object ⟨String.ofList cs.dropLast⟩
  | c :: _ => (Ty.ofLetter? c).getD .reference
  | [] => .reference

namespace Value

/-- The value of a document that is nested at most so deep. -/
def ofDocument : Nat → Json → Value
  | 0, _ => ⟨.reference, .null⟩
  | fuel + 1, j =>
    let content :=
      match j.part "v" with
      | .arr xs => Datum.tuple (xs.map Datum.ofJson)
      | .obj es => Datum.record (es.map fun e => (e.1, (ofDocument fuel e.2).toDatum))
      | v => Datum.ofJson v
    ⟨Ty.ofEncoding (j.textAt "t").toList, content⟩

end Value

end Assay
