import Assay.Baseline.Named
import Assay.Console.Listing
import Assay.Console.Replay
import Assay.Suite.Health

/-!
# The command line

`checkhealth` checks the suite in the current folder, `inspect` lists the instructions of a method,
`test` and `interpret` try a program on the suite, and a program can be run alone by its name.
-/

namespace Assay

def usage : String :=
  "usage: checkhealth | inspect METHOD [FORM] | test PROGRAM [FILTER] | " ++
    "interpret PROGRAM [--stepwise] | PROGRAM ARGUMENTS"

/-- What the programs see of a folder. -/
def programFiles (f : Suite.Folder) (platform : String) : Baseline.Files :=
  ⟨f.library, [], f.files.lookup "stats/distribution.csv", f.files.lookup Suite.caseFile, platform⟩

/-- The checks of the suite as a command. -/
def healthCommand (f : Suite.Folder) (root : String) : Console Unit := do
  let (ending, log) := Suite.checkHealth false root f
  modify fun d => { d with log := d.log ++ log }
  Console.ofExcept ending

/-- The command that arguments ask for. -/
def command (f : Suite.Folder) (root platform : String) (args : List String) : Console Unit :=
  let files := programFiles f platform
  let bench (program : String) : Bench :=
    ⟨f.cases, Baseline.reply files, [program], some false, root, ""⟩
  match args with
  | ["checkhealth"] => healthCommand f root
  | ["inspect", method] => Console.list f.library "pretty" method
  | ["inspect", method, form] => Console.list f.library form method
  | ["test", program] => Console.trial (bench program) none
  | ["test", program, filter] => Console.trial (bench program) (some filter)
  | ["interpret", program] => Console.replay (bench program) false none
  | ["interpret", program, "--stepwise"] => Console.replay (bench program) true none
  | name :: args =>
    match Baseline.named? files name with
    | some p => p args
    | none => do
      Console.say .error usage
      Console.exit 2
  | [] => do
    Console.say .error usage
    Console.exit 2

/-- The code of a command that ended in this way, and what it complains of. -/
def exitCode : Except Stop Unit → UInt32 × List String
  | .ok () => (0, [])
  | .error (.exit code) => (UInt32.ofInt (code.emod 256), [])
  | .error (.fault f) => (1, [f.message])

/-- Reads the files below a part of the folder. -/
def readFiles (part : String) : IO (List (String × String)) := do
  let here ← IO.currentDir
  let paths ← try (here / part).walkDir catch _ => pure #[]
  let skipped := here.toString.length + 1
  let mut files := []
  for p in paths do
    if !(← p.isDir) then
      let bytes ← IO.FS.readBinFile p
      let name := String.ofList (p.toString.toList.drop skipped)
      files := (name, (String.fromUTF8? bytes).getD "") :: files
  return files.reverse

end Assay

def main (args : List String) : IO UInt32 := do
  let parts := ["decompiled", "stats", "src/main/java", "target/classes"]
  let files ← parts.mapM Assay.readFiles
  let stepwise ← try
      pure [(Assay.Console.stepwiseFile, ← IO.FS.readFile Assay.Console.stepwiseFile)]
    catch _ => pure []
  let root := (← IO.currentDir).toString
  let folder : Assay.Suite.Folder := ⟨files.flatten⟩
  let (ending, desk) := (Assay.command folder root "no" args).start
    { Assay.Desk.empty with files := stepwise }
  for line in desk.printed do
    IO.println line
  for line in Assay.Message.lines .info desk.log do
    IO.eprintln line
  for (path, text) in desk.files do
    IO.FS.writeFile path text
  if desk.files.isEmpty && !stepwise.isEmpty then
    IO.FS.removeFile Assay.Console.stepwiseFile
  let (code, complaints) := Assay.exitCode ending
  for line in complaints do
    IO.eprintln line
  return code
