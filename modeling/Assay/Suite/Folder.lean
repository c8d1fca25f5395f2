import Assay.Case
import Assay.Json.Reader
import Assay.Suite.ClassFile

/-!
# The folder of a suite

A folder is known by the files in it: their paths relative to it, and their texts.
-/

namespace Assay.Suite

structure Folder where
  files : List (String × String)
  deriving Inhabited

namespace Folder

/-- The text of a file as a reader sees it. -/
def text (f : Folder) (path : String) : Except Fault String :=
  match f.files.lookup path with
  | some s => .ok (Text.fromFile s)
  | none => .error ⟨.noFile, path⟩

def below (path : String) (entry : String × String) : Bool := entry.1.startsWith (path ++ "/")

/-- There are files below the path. -/
def isFolder (f : Folder) (path : String) : Bool := f.files.any (below path)

def exists? (f : Folder) (path : String) : Bool :=
  f.isFolder path || (f.files.lookup path).isSome

/-- The paths of the files below a folder with an ending. -/
def withEnding (f : Folder) (path ending : String) : List String :=
  (f.files.filter fun e => below path e && e.1.endsWith ending).map Prod.fst

def classFile (f : Folder) (c : ClassName) : Except Fault ClassFile := do
  return ClassFile.ofJson (← Json.parse (← f.text (decompiledFile c).text))

/-- The classes that have a compiled file. -/
def classes (f : Folder) : List ClassName :=
  (f.withEnding classFolder ".class").map fun p =>
    let inner := p.toList.drop (classFolder.length + 1)
    .ofParts (Text.split '/' (String.ofList (inner.take (inner.length - 6))))

/-- The decompiled classes that can be read. -/
def library (f : Folder) : Library :=
  .ofJsons ((f.withEnding decompiledFolder ".json").filterMap fun p => do
    let text ← f.files.lookup p
    let document ← (Json.parse (Text.fromFile text)).toOption
    let inner := p.toList.drop (decompiledFolder.length + 1)
    return (String.ofList (inner.take (inner.length - 5)), document))

def cases (f : Folder) : Except Fault (List Case) := do
  (Text.feedLines (← f.text caseFile)).mapM Case.decode

end Folder

end Assay.Suite
