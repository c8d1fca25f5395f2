import Assay.Ty.Basic

/-!
# Where files stand

The paths of the files of a suite, relative to its folder. Empty segments of a class name vanish.
-/

namespace Assay.Suite

/-- A path: the folders on the way and the file. -/
structure Path where
  absolute : Bool
  segments : List String
  deriving DecidableEq, Inhabited

namespace Path

def ofText (s : String) : Path :=
  ⟨s.startsWith "/", (Text.split '/' s).filter fun p => p ≠ "" ∧ p ≠ "."⟩

/-- The path seen from another; an absolute one stands for itself. -/
def join (p q : Path) : Path :=
  if q.absolute then q else ⟨p.absolute, p.segments ++ q.segments⟩

def text (p : Path) : String :=
  (if p.absolute then "/" else "") ++ "/".intercalate p.segments

/-- Adds an ending to the last segment. -/
def withEnding (ending : String) (p : Path) : Path :=
  match p.segments.reverse with
  | [] => p
  | last :: rest => { p with segments := ((last ++ ending) :: rest).reverse }

/-- The file of a class below a folder. -/
def ofClass (folder : String) (parts : List String) (ending : String) : Path :=
  (parts.foldl (fun p s => p.join (ofText s)) (ofText folder)).withEnding ending

end Path

def sourceFolder : String := "src/main/java"

def classFolder : String := "target/classes"

def decompiledFolder : String := "decompiled"

def statsFolder : String := "stats"

def caseFile : String := "stats/cases.txt"

def classFile (c : ClassName) : Path := .ofClass classFolder c.parts ".class"

/-- The source of a class is that of the class it is nested in. -/
def sourceFile (c : ClassName) : Path :=
  .ofClass sourceFolder (c.packages ++ (Text.split '$' c.name).take 1) ".java"

def decompiledFile (c : ClassName) : Path := .ofClass decompiledFolder c.parts ".json"

/-- The path of a class within a folder of classes. -/
def classPath (c : ClassName) : String :=
  (c.parts.foldl (fun p s => p.join (.ofText s)) (Path.ofText "")).text

end Assay.Suite
