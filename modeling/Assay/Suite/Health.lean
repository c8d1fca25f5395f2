import Assay.Instr.Listing
import Assay.Log
import Assay.Prime
import Assay.Suite.Folder

/-!
# The health of a suite

A sequence of checks of a folder. Each check is announced and then reported as passed or failed; a
check that meets an unexpected fault ends them all.
-/

namespace Assay.Suite

/-- Checks write messages; those written before a fault are kept. -/
abbrev Check (α : Type) : Type := ExceptT Fault (StateM (List Message)) α

namespace Check

def say (level : Level) (text : String) : Check Unit :=
  modify fun ms => ms ++ [⟨level, text⟩]

def require (holds : Bool) (expectation : String) : Check Unit :=
  if holds then pure () else throw (.violated expectation)

def ofExcept {α : Type} : Except Fault α → Check α
  | .ok a => pure a
  | .error e => throw e

/-- The arguments of a violated expectation. -/
def reasonList (message : String) : String :=
  if message.isEmpty then "()" else "(" ++ Text.quote message ++ ",)"

/-- One check. A violated expectation is reported, and ends the checks only with `failfast`. -/
def named (failfast : Bool) (subject : String) (body : Check Unit) : Check Unit := do
  say .info subject
  try
    body
    say .success s!"{subject} ok"
  catch e =>
    if e.kind = .violated then
      say .error (s!"{subject} FAILED" ++ if e.message.isEmpty then "" else s!": {e.message}")
      if failfast then throw (.violated s!"{subject} {reasonList e.message}")
    else throw e

/-- A folder that must hold files with an ending. -/
def filesIn (f : Folder) (path ending what : String) : Check Unit := do
  require (f.exists? path) "should exists"
  require (f.isFolder path) "should be a folder"
  let files := f.withEnding path ending
  require (!files.isEmpty) s!"should contain {what}"
  say .info s!"Found {files.length} files"

/-- A class has a decompiled file that bears its name. -/
def decompiled (f : Folder) (c : ClassName) : Check Unit := do
  let file ← ofExcept (f.classFile c)
  say .info s!"Checking if {c.text} is decompiled."
  let name ← ofExcept (file.document.item "name")
  require (name == .str c.slashed) s!"could not decompile {c.text}"

/-- Every instruction can be shown. -/
def readable (i : Except Fault Instr) : Except Fault Unit := do
  let i ← i
  let _ ← i.line
  let _ ← i.real
  return

/-- All instructions of a method are supported. -/
def supported (f : Folder) (m : MethodId) : Check Unit :=
  let shown : Except Fault Unit := do
    (← (← (← f.classFile m.owner).method m).instrs).forM readable
  match shown with
  | .ok _ => pure ()
  | .error e =>
    throw (if e.kind = .unsupported then .violated "All operations should be supported" else e)

/-- All checks of a folder that messages call `root`. -/
def all (failfast : Bool) (root : String) (f : Folder) : Check Unit := do
  let check := named failfast
  check "The timer" do
    let x ← ofExcept (Prime.nth 1000)
    require (x = 7919) "should find correct prime."
  check s!"The source folder [{root}/{sourceFolder}]" do
    filesIn f sourceFolder ".java" "source files"
  check s!"The classfiles folder [{root}/{classFolder}]" do
    filesIn f classFolder ".class" "class files"
  check s!"The decompiled folder [{root}/{decompiledFolder}]" do
    filesIn f decompiledFolder ".json" "decompiled class files"
    f.classes.forM (decompiled f)
  check s!"The case file [{root}/{caseFile}]" do
    require (f.exists? caseFile) "should exist"
    let cases ← ofExcept f.cases
    require (!cases.isEmpty) "cases should be parsable and at least one"
    say .info s!"Found {cases.length} cases"
  let cases ← ofExcept f.cases
  (Case.groups cases).forM fun (m, _) => check s!"The method: [{m.encode}]" (supported f m)

end Check

/-- The messages of the checks of a folder, and the fault that ended them early. -/
def checkHealth (failfast : Bool) (root : String) (f : Folder) : Except Fault Unit × List Message :=
  (Check.all failfast root f).run []

end Assay.Suite
