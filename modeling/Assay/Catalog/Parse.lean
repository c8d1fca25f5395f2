import Assay.Catalog.Syntactic
import Assay.Suite.Path

/-!
# Catalogs from source files

The classes of Java files: one for each file, named after it, with the methods declared in the
file.
-/

namespace Assay

namespace Source

/-- The parameters declared below a node. -/
def parameters (s : Source) (n : Node) : Except Fault (List Variable) :=
  let declared := (n.ofKind "formal_parameters").flatMap fun ps =>
    ps.children.filter fun c => c.kind = "formal_parameter"
  declared.mapM fun p =>
    match p.child? "type", p.child? "name" with
    | some t, some x => do
      let type ← s.textOf t
      return ⟨← s.textOf x, type⟩
    | _, _ => .error Call.noNode

/-- The types and names of local variables below a node, in order of their first byte. -/
def localParts (n : Node) : List (Bool × Node) :=
  let declared := (n.ofKind "local_variable_declaration").filterMap fun d => do
    let t ← d.child? "type"
    let x ← (← d.child? "declarator").child? "name"
    return (t, x)
  ((declared.map fun d => (true, d.1)) ++ (declared.map fun d => (false, d.2))).mergeSort
    fun a b => a.2.start ≤ b.2.start

/-- A name gets the type that stands last before it. -/
def pairLocals (s : Source) : String → List (Bool × Node) → Except Fault (List Variable)
  | _, [] => .ok []
  | _, (true, n) :: rest => do s.pairLocals (← s.textOf n) rest
  | type, (false, n) :: rest => do
    let name ← s.textOf n
    return ⟨name, type⟩ :: (← s.pairLocals type rest)

/-- The local variables declared below a node. -/
def localVariables (s : Source) (n : Node) : Except Fault (List Variable) :=
  s.pairLocals "" (localParts n)

/-- The assertions below a node. -/
def assertions (n : Node) : List Assertion :=
  (n.ofKind "assert_statement").map fun a => ⟨a, a.row, a.endRow, unclassified⟩

/-- The method that a node declares. -/
def methodOf (s : Source) (n : Node) : Except Fault Method := do
  match n.child? "name" with
  | none => .error (.noMember "'NoneType' object has no attribute 'text'")
  | some x =>
    let name ← s.textOf x
    let params ← s.parameters n
    let locals ← s.localVariables n
    return { name, id := none, node := n, params, locals, assertions := assertions n
             changesState := false, wrong := [] }

/-- The methods that a file declares. -/
def methods (s : Source) : Except Fault (List Method) :=
  (s.root.ofKind "method_declaration").mapM s.methodOf

end Source

namespace Catalog

/-- The folder below which classes are looked for. -/
def rootFolder : String := "jpamb/"

/-- The class name of a file name. -/
def classNameOf (path : String) : String :=
  let name := (Text.split '/' path).getLast?.getD ""
  if name = ".java" then name
  else String.ofList (name.toList.take (name.length - ".java".length))

/-- Adds methods to the first class of a name. -/
def addMethods (name : String) (ms : List Method) : Catalog → Catalog
  | [] => []
  | k :: ks =>
    if k.name = name then { k with methods := k.methods ++ ms } :: ks
    else k :: addMethods name ms ks

/-- Adds the class of a file. If there is one of that name already, its methods are read again. -/
def addFile (c : Catalog) (path : String) (s : Source) : Except Fault Catalog := do
  let name := classNameOf path
  let c := c ++ [{ name, source := s, average := none, methods := [] }]
  let first := ((c.class? name).map Class.source).getD s
  return c.addMethods name (← first.methods)

/-- The classes of the files, without any analysis. -/
def ofFiles (files : List (String × Source)) : Except Fault Catalog :=
  (files.filter fun f => f.1.startsWith rootFolder && f.1.endsWith ".java").foldlM
    (fun c f => c.addFile f.1 f.2) []

/-- The classes of the files, with side effects. -/
def withEffects (files : List (String × Source)) : Except Fault Catalog := do
  (← ofFiles files).mapM Class.withEffects

/-- The class of which the analysis is about. -/
def benchmark : String := "BenchmarkSuite"

/-- The benchmark class of the files, with its assertions labelled by form, if there is one. -/
def analyseFiles (files : List (String × Source)) : Except Fault (Option Class) := do
  let (c, r) := (← withEffects files).analyseForm
  r
  return c.class? benchmark

end Catalog

end Assay
