import Assay.Instr.Reading
import Assay.Suite.Path

/-!
# Class files

The methods and fields of decompiled classes. A part that cannot be read keeps its fault, which
shows only when the part is asked for.
-/

namespace Assay

/-- A method of a class file. -/
structure MethodEntry where
  document : Json
  name : Except Fault Json
  params : Except Fault (List Ty)
  /-- The instructions one by one. -/
  instrs : Except Fault (List (Except Fault Instr))
  /-- The instructions, if all of them can be read. -/
  code : Except Fault (List Instr)
  deriving Inhabited

namespace MethodEntry

def ofJson (j : Json) : MethodEntry :=
  let instrs : Except Fault (List (Except Fault Instr)) := do
    return (← (← (← j.item "code").item "bytecode").elements).map Instr.ofJson
  { document := j
    name := j.item "name"
    params := do Ty.ofAnnotated (← j.item "params")
    instrs
    code := do (← instrs).mapM id }

end MethodEntry

structure ClassFile where
  document : Json
  methods : Except Fault (List MethodEntry)
  deriving Inhabited

namespace ClassFile

def ofJson (j : Json) : ClassFile :=
  { document := j
    methods := do return (← (← j.item "methods").elements).map MethodEntry.ofJson }

/-- The first method of that name, whose parameters must be the ones asked for. -/
def findMethod (id : MethodId) : List MethodEntry → Except Fault MethodEntry
  | [] => .error (.outOfRange s!"Could not find {id.encode}")
  | m :: ms => do
    let name ← m.name
    if name == .str id.signature.name then
      let params ← m.params
      if params = id.signature.params then return m
      else
        let shown := (Datum.ofJson (valueOr .null (m.document.item "params"))).text
        .error (.violated (s!"Mulitple methods with same name {Text.quote id.signature.name}, " ++
          s!"but different params {Ty.fullAll params} from {shown} and " ++
          Ty.fullAll id.signature.params))
    else findMethod id ms

def method (c : ClassFile) (id : MethodId) : Except Fault MethodEntry := do
  findMethod id (← c.methods)

end ClassFile

/-- The class files that can be looked up, by the path of the class. -/
structure Library where
  files : List (String × ClassFile)
  deriving Inhabited

namespace Library

def empty : Library := ⟨[]⟩

def ofJsons (files : List (String × Json)) : Library :=
  ⟨files.map fun (path, j) => (path, ClassFile.ofJson j)⟩

/-- The file of a class. -/
def find (lib : Library) (c : ClassName) : Except Fault ClassFile :=
  match lib.files.lookup (Suite.classPath c) with
  | some f => .ok f
  | none => .error ⟨.noFile, Suite.classPath c⟩

/-- The entry of a method. -/
def method (lib : Library) (id : MethodId) : Except Fault MethodEntry := do
  (← lib.find id.owner).method id

/-- The instructions of a method. -/
def code (lib : Library) (id : MethodId) : Except Fault (List Instr) := do
  (← lib.method id).code

end Library

end Assay
