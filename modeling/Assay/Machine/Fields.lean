import Assay.Suite.ClassFile

/-!
# Fields

The values of the fields of a class, and the fields of a new object.
-/

namespace Assay

/-- The value that stands for a constant of a class file or of an input. -/
def Value.wrap : Datum → Except Fault Value
  | .bool b => .ok (.ofBool b)
  | .int n => .ok (.ofInt n)
  | .tuple xs => .ok (.ofArray .int xs)
  | .null => .ok (.ofBool false)
  | .str s =>
    if s.length = 1 then .ok ⟨.char, .str s⟩
    else .error (.wrongShape s!"Do not know how to wrap {Text.quote s}")
  | d => .error (.wrongShape s!"Do not know how to wrap {d.full}")

namespace ClassFile

/-- The value of the first field of that name. -/
def staticIn (name : Json) : List Json → Except Fault Value
  | [] =>
    .error ⟨.missingKey, Text.quote s!"Static field not found: {Label.shown name}"⟩
  | f :: fs => do
    if (← f.item "name") == name then Value.wrap (.ofJson (← f.item "value")) else staticIn name fs

def staticField (c : ClassFile) (name : Json) : Except Fault Value := do
  staticIn name (← (← c.document.item "fields").elements)

/-- The value of a simple field before it is set. -/
def initial : Json → Value
  | .str "int" => .ofInt 0
  | .str "boolean" => .ofBool false
  | .str "char" => ⟨.char, .str "\x00"⟩
  | _ => ⟨.reference, .null⟩

/-- The element type of an array field. -/
def elementType : Json → Ty
  | .str "int" => .int
  | .str "char" => .char
  | .str "boolean" => .boolean
  | _ => .reference

/-- The value of a field of this type before it is set. -/
def initialOf (type : Json) : Except Fault Value := do
  if ← type.mentions "kind" then
    if ← (← type.item "kind").mentions "array" then
      return .ofArray (elementType (← (← type.item "type").item "base")) []
    else .error (.malformed "Unknown json configuration")
  else return initial (← type.item "base")

/-- Sets an entry of a record. -/
def setEntry (key : String) (d : Datum) : List (String × Datum) → List (String × Datum)
  | [] => [(key, d)]
  | (k, e) :: es => if k = key then (k, d) :: es else (k, e) :: setEntry key d es

/-- Adds the fields of an object to a record. -/
def addFields (record : List (String × Datum)) : List Json → Except Fault (List (String × Datum))
  | [] => .ok record
  | f :: fs => do
    let isStatic := (← f.entry "static").getD (.bool false)
    if isStatic.truthy then addFields record fs
    else
      let name ← f.item "name"
      let v ← initialOf (← f.item "type")
      addFields (setEntry (Label.shown name) v.toDatum record) fs

/-- A new object of a class. -/
def newObject (c : ClassFile) (name : ClassName) : Except Fault Value := do
  let fields ← ((← c.document.entry "fields").getD (.arr [])).elements
  return ⟨.object name, .record (← addFields [] fields)⟩

end ClassFile

/-- A new object of a class in the library. -/
def Library.newObject (lib : Library) (name : ClassName) : Except Fault Value := do
  (← lib.find name).newObject name

end Assay
