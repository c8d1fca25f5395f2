import Assay.Datum

/-!
# Types and values in class files

Class files name types by words, or describe them by records: `base` for a plain type, `kind` for
arrays and classes.
-/

namespace Assay.Ty

/-- The type named by a word of the class file format. -/
def ofWord? : String → Option Ty
  | "integer" | "int" => some int
  | "char" => some char
  | "short" => some short
  | "ref" => some reference
  | "boolean" => some boolean
  | _ => none

def unknown (j : Json) : Fault :=
  .unsupported s!"Type.from_json: {(Datum.ofJson j).full}"

/-- Appends the names of inner classes to the name of a class. -/
def innerName (top : String) : Json → Except Fault String
  | .obj entries =>
    if entries.isEmpty then .ok top
    else
      match entries.lookup "name" with
      | none => .error (Json.missing "name")
      | some (.str n) => innerOf (top ++ "$" ++ n) entries
      | some j => .error (.wrongShape s!"can only concatenate str (not \"{j.shape}\") to str")
  | j => if j.truthy then (j.item "name").map fun _ => top else .ok top
where
  /-- Follows the `inner` entry of a record. -/
  innerOf (top : String) : List (String × Json) → Except Fault String
    | [] => .ok top
    | (k, j) :: es => if k = "inner" then innerName top j else innerOf top es

def notText (j : Json) : Fault :=
  .noMember s!"'{j.shape}' object has no attribute 'replace'"

/-- The type that a record describes, given its entries and the type that each of them describes. -/
def ofRecord (entries : List (String × Json)) (types : List (String × Except Fault Ty)) :
    Except Fault Ty :=
  match types.lookup "base" with
  | some t => t
  | none =>
    match entries.lookup "kind" with
    | none => .error (unknown (.obj entries))
    | some (.str "array") =>
      match types.lookup "type" with
      | some t => t.map array
      | none => .error (Json.missing "type")
    | some (.str "class") => do
      match ← (Json.obj entries).item "name" with
      | .str n =>
        let top := Text.replaceChar '/' '.' n
        match entries.lookup "inner" with
        | none => return object ⟨top⟩
        | some inner => return object ⟨← innerName top inner⟩
      | j => .error (notText j)
    | some kind =>
      let shown := (Datum.ofJson (.obj entries)).full
      .error (.unsupported s!"Unknown kind {(Datum.ofJson kind).text}, in Type.from_json: {shown}")

/-- What is not a record and not a known word describes no type. A word or list that mentions
`base` or `kind` is taken for a record and has the wrong shape. -/
def ofOther (j : Json) : Except Fault Ty := do
  if (← j.mentions "base") || (← j.mentions "kind") then
    let _ ← j.item "base"
  .error (unknown j)

mutual

/-- The type that a class file describes. -/
def ofJson : Json → Except Fault Ty
  | .str s =>
    match ofWord? s with
    | some t => .ok t
    | none => ofOther (.str s)
  | .obj entries => ofRecord entries (ofEntries entries)
  | j => ofOther j

/-- The type that each entry of a record describes. -/
def ofEntries : List (String × Json) → List (String × Except Fault Ty)
  | [] => []
  | (k, j) :: es => (k, ofJson j) :: ofEntries es

end

/-- The types that a list of descriptions gives. -/
def ofJsons (j : Json) : Except Fault (List Ty) := do
  (← j.elements).mapM ofJson

/-- The types of parameters that carry annotations. -/
def ofAnnotated (j : Json) : Except Fault (List Ty) := do
  (← j.elements).mapM fun p => do
    if ← p.mentions "annotations" then ofJson (← p.item "type")
    else .error (.violated s!"parameters should be annotated was: {(Datum.ofJson p).text}")

end Assay.Ty

namespace Assay.Value

/-- The value that a class file describes: null is the null reference. -/
def ofJson : Json → Except Fault Value
  | .null => .ok ⟨.reference, .null⟩
  | j => do
    let described ← j.item "type"
    match Ty.ofJson described with
    | .ok t => return ⟨t, .ofJson (← j.item "value")⟩
    | .error e =>
      .error (if e.kind = .unsupported then .unsupported s!"Cannot handle {(Datum.ofJson j).full}"
        else e)

/-- A value in the notation of inputs. -/
def encode (v : Value) : Except Fault String :=
  match v.type with
  | .boolean => .ok (if v.content.truthy then "true" else "false")
  | .int => v.content.write
  | .char => do return "'" ++ (← v.content.write) ++ "'"
  | .array element =>
    match v.content.elements? with
    | none => .error (.violated "")
    | some xs =>
      match element with
      | .int => do return "[I:" ++ ", ".intercalate (← xs.mapM Datum.write) ++ "]"
      | .char => do
        let texts ← xs.mapM Datum.write
        return "[C:" ++ ", ".intercalate (texts.map fun t => "'" ++ t ++ "'") ++ "]"
      | _ => .error (.unsupported "")
  | t => .error (.unsupported s!"Cannot encode {t.encode}")

end Assay.Value
