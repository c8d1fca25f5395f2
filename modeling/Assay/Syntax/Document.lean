import Assay.Json.Access
import Assay.Syntax.Source

/-!
# Trees from documents

A document for a node, with its kind, children, fields and the bytes it covers. Its text is given,
or it is that part of the file.
-/

namespace Assay.Node

def fieldsOf (j : Json) : List (String × Nat) :=
  (j.entriesAt "fields").map fun (k, i) => (k, i.asNat)

mutual

/-- The node of a document that has its texts. -/
def ofDocument : Json → Node
  | .obj es =>
    let j := Json.obj es
    let row := j.intAt "row" 0
    { kind := j.textAt "type", text := j.textAt "text", children := childrenOf es
      fields := fieldsOf j, start := ((j.part "span").nth 0).asNat
      stop := ((j.part "span").nth 1).asNat, row, endRow := row }
  | _ => .empty

def childrenOf : List (String × Json) → List Node
  | [] => []
  | (k, .arr js) :: es => if k = "children" then ofDocuments js else childrenOf es
  | _ :: es => childrenOf es

def ofDocuments : List Json → List Node
  | [] => []
  | j :: js => ofDocument j :: ofDocuments js

end

mutual

/-- The node of a document, with texts from the file. -/
def inFile (text : String) : Node → Node
  | ⟨kind, _, children, fields, start, stop, _, _⟩ =>
    { kind, text := valueOr "" ((Source.mk text .empty).part start stop)
      children := eachInFile text children, fields, start, stop
      row := Source.rowAt text start, endRow := Source.rowAt text stop }

def eachInFile (text : String) : List Node → List Node
  | [] => []
  | n :: ns => inFile text n :: eachInFile text ns

end

end Assay.Node

namespace Assay.Source

/-- The file of a document with its text and tree. -/
def ofDocument (j : Json) : Source :=
  let text := j.textAt "text"
  ⟨text, (Node.ofDocument (j.part "tree")).inFile text⟩

end Assay.Source
