import Assay.Analysis
import Assay.Json.View
import Assay.Syntax.Document

/-!
# Catalogs and documents

Catalogs are read from documents and shown as documents, with one object for each class, method
and assertion.
-/

namespace Assay

namespace Variable

/-- The variable of a pair of texts. -/
def ofDocument (j : Json) : Variable := ⟨(j.nth 0).asText, (j.nth 1).asText⟩

end Variable

namespace Assertion

def ofDocument (j : Json) : Assertion :=
  let row := j.intAt "row" 0
  ⟨Node.ofDocument (j.part "node"), row, row, (j.part "class").text?.getD unclassified⟩

end Assertion

namespace Method

/-- The method of a document; its failing inputs have to fit its parameters. -/
def ofDocument (read : Json → Datum) (j : Json) : Except Fault Method :=
  let suspect (s : Json) : Fuzz.Suspect := ⟨read (s.nth 0), (s.nth 1).truthy, (s.nth 2).truthy⟩
  let n := Node.ofDocument (j.part "node")
  let m : Method :=
    { name := j.textAt "name", id := (j.part "id").text?
      node := { n with row := j.intAt "row" n.row }
      params := (j.listAt "params").map Variable.ofDocument
      locals := (j.listAt "locals").map Variable.ofDocument
      assertions := (j.listAt "asserts").map Assertion.ofDocument
      changesState := j.flagAt "change_state" false, wrong := [] }
  match Analysis.addCrashes m ((j.listAt "wrong").map fun w => w.asList.map suspect) with
  | (m, .ok ()) => .ok m
  | (_, .error f) => .error f

/-- The document of a method. -/
def document (render : Datum → Json) (m : Method) : Json :=
  .obj [("name", view m.name), ("id", view m.id), ("change_state", view m.changesState),
    ("asserts", view (m.assertions.map Assertion.label)),
    ("wrong", .arr (m.wrong.map fun w =>
      .arr [view w.name, view w.type, render w.value, view w.faulty])),
    ("suggested", view m.suggested)]

end Method

namespace Class

def ofDocument (read : Json → Datum) (text : String) (j : Json) : Except Fault Class := do
  let methods ← (j.listAt "methods").mapM (Method.ofDocument read)
  let k : Class := { name := j.textAt "name", source := ⟨text, .empty⟩, average := none, methods }
  return if j.flagAt "avg" true then k.withAverage else k

def document (render : Datum → Json) (k : Class) : List (String × Json) :=
  [("name", view k.name), ("avg", view k.average),
    ("methods", .arr (k.methods.map (Method.document render)))]

/-- What a class file says of the methods, beside the results of the analysis. -/
def detail (k : Class) : Json :=
  let vars (vs : List Variable) : Json := view (vs.map fun v => (v.name, v.type))
  .arr (k.methods.map fun m => .obj [("row", view m.node.row), ("params", vars m.params),
    ("locals", vars m.locals),
    ("asserts", .arr (m.assertions.map fun a =>
      .arr [view a.row, view a.endRow, view a.node.text]))])

end Class

namespace Catalog

/-- The catalog of a list of documents, all about one file. -/
def ofDocuments (read : Json → Datum) (text : String) (js : List Json) : Except Fault Catalog :=
  js.mapM (Class.ofDocument read text)

def document (render : Datum → Json) (c : Catalog) : Json :=
  .arr (c.map fun k => .obj (k.document render))

end Catalog

end Assay
