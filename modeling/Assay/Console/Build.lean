import Assay.Case
import Assay.Console.Basic
import Assay.Instr.Listing
import Assay.Json.Access
import Assay.Json.Reader
import Assay.Json.Writer
import Assay.Suite.ClassFile
import Assay.Text.Blank

/-!
# Builds

The benchmarks are compiled, decompiled, documented and tested, each step on demand. Documenting
counts the instructions of the cases' methods.
-/

namespace Assay.Console

/-- The steps of a build. -/
structure Steps where
  compile : Bool
  decompile : Bool
  document : Bool
  test : Bool

namespace Steps

def none : Steps := ⟨false, false, false, false⟩

/-- The steps after one more flag. -/
def add? (s : Steps) : String → Option Steps
  | "--compile" => some { s with compile := true }
  | "--no-compile" => some { s with compile := false }
  | "--decompile" => some { s with decompile := true }
  | "--no-decompile" => some { s with decompile := false }
  | "--document" => some { s with document := true }
  | "--no-document" => some { s with document := false }
  | "--test" => some { s with test := true }
  | "--no-test" => some { s with test := false }
  | _ => Option.none

/-- The steps that flags ask for; of two flags the last counts. -/
def ofFlags? (flags : List String) : Option Steps := flags.foldlM add? none

end Steps

/-- What is built: the folder, the compiled classes, the class files and the cases. -/
structure Workshop where
  root : String
  classes : List ClassName
  library : Library
  cases : Except Fault (List Case)
  programs : Programs
  /-- What links to the definition of an instruction lead to. -/
  link : String

def compile (w : Workshop) : Console Unit := do
  let _ ← call w.programs ["mvn", "compile"] (some 600) (say .warning)

/-- Decompiles a class into a document with its keys in order. -/
def decompileClass (w : Workshop) (c : ClassName) : Console Unit := do
  say .info s!"Decompiling {c.text}"
  let command := ["jvm2json", "-s", w.root ++ "/" ++ (Suite.classFile c).text]
  let (out, _) ← call w.programs command none (say .warning)
  let path := (Suite.decompiledFile c).text
  writeFile path ""
  let document ← ofExcept (Json.parse out)
  writeFile path (Json.write (.tree 2) document.sortKeys)

def decompile (w : Workshop) : Console Unit := do
  say .info "Decompiling"
  w.classes.forM (decompileClass w)
  say .success "Done decompiling"

/-- What is known of a mnemonic: the documentation and the name of its last instruction, and how
often it occurs. -/
structure Usage where
  mnemonic : String
  url : String
  name : String
  count : Nat

/-- Counts an instruction. -/
def countUsage (mnemonic url name : String) : List Usage → List Usage
  | [] => [⟨mnemonic, url, name, 1⟩]
  | u :: us =>
    if u.mnemonic = mnemonic then ⟨mnemonic, url, name, u.count + 1⟩ :: us
    else u :: countUsage mnemonic url name us

/-- Sets the mnemonics of a class; a class that is there keeps its place. -/
def setMnemonics (owner : String) (ms : List String) :
    List (String × List String) → List (String × List String)
  | [] => [(owner, ms)]
  | (o, old) :: rest =>
    if o = owner then (o, ms) :: rest else (o, old) :: setMnemonics owner ms rest

/-- The usages of all mnemonics, and the mnemonics of each class in its last case. -/
structure Census where
  usages : List Usage
  classes : List (String × List String)

/-- Counts the instructions of a method until one has no mnemonic. -/
def countInstrs : List (Except Fault Instr) → List Usage → List String →
    Except Fault (List Usage × List String)
  | [], usages, ms => .ok (usages, ms)
  | i :: is, usages, ms => do
    let i ← i
    let mnemonic ← i.mnemonic
    let usages := countUsage mnemonic (← i.documentation) i.op.name usages
    countInstrs is usages (ms ++ [mnemonic])

def countCase (lib : Library) (census : Census) (c : Case) : Except Fault Census := do
  let owner := c.method.owner.name
  let (usages, ms) ← countInstrs (← (← lib.method c.method).instrs) census.usages []
  return ⟨usages, setMnemonics owner ms census.classes⟩

/-- The line of a mnemonic in the table. -/
def usageLine (link : String) (classes : List (String × List String)) (u : Usage) : String :=
  let owners := (classes.filter fun c => c.2.contains u.mnemonic).map fun c => " " ++ c.1
  " | [" ++ u.mnemonic ++ "](" ++ u.url ++ ") | [" ++ u.name ++ "](" ++ link ++ ") | " ++
    String.join owners ++ " | " ++ toString u.count ++ " |\n"

def heading : String :=
  "#Bytecode instructions\n| Mnemonic | Opcode Name |  Exists in |  Count |\n" ++
    "| :---- | :---- | :----- | -----: |\n"

/-- The table of all mnemonics, the most frequent first. -/
def Census.table (link : String) (census : Census) : String :=
  let sorted := census.usages.mergeSort fun a b => b.count ≤ a.count
  heading ++ String.join (sorted.map (usageLine link census.classes))

/-- The file of the table. -/
def tableFile : String := "OPCODES.md"

def document (w : Workshop) : Console Unit := do
  let cases ← ofExcept w.cases
  let census ← ofExcept (cases.foldlM (countCase w.library) ⟨[], []⟩)
  writeFile tableFile (census.table w.link)

/-- Runs a case and compares its result; a case that takes too long runs forever. -/
def testCase (w : Workshop) (c : Case) : Console Unit := do
  let shown ← ofExcept c.text
  say .info s!"Testing {shown}"
  let command := ["java", "-cp", w.root ++ "/" ++ Suite.classFolder, "-ea", "jpamb.Runtime",
    c.method.encode, ← ofExcept c.input.encode]
  let result ← match ← attempt (call w.programs command (some 2) (say .debug)) with
    | .ok (out, _) => pure out
    | .error f => if f.kind = .timedOut then pure "*" else fail f
  let result := Text.trim result
  if c.result = result then say .success s!"Correct {shown}"
  else say .error s!"Incorrect (got {result}) expected {shown}"

def test (w : Workshop) : Console Unit := do
  say .info "Testing"
  (← ofExcept w.cases).forM (testCase w)
  say .success "Done testing"

/-- Builds what the flags ask for; an unknown flag is a mistake of usage. -/
def build (w : Workshop) (flags : List String) : Console Unit := do
  match Steps.ofFlags? flags with
  | .none => exit 2
  | some s =>
    if s.compile then compile w
    if s.decompile then decompile w
    if s.document then document w
    if s.test then test w

end Assay.Console
