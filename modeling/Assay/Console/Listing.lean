import Assay.Console.Basic
import Assay.Instr.Listing
import Assay.Json.Writer
import Assay.Suite.ClassFile

/-!
# Listings

The instructions of a method, numbered, in one of several forms.
-/

namespace Assay.Console

/-- The form of the lines of a listing. -/
inductive Form where
  /-- For readers. -/
  | pretty
  /-- As an assembler writes them. -/
  | real
  /-- With all that is known of them. -/
  | full
  /-- The documents they were read from. -/
  | json
  deriving DecidableEq

def Form.ofName? : String → Option Form
  | "pretty" => some .pretty
  | "real" => some .real
  | "repr" => some .full
  | "json" => some .json
  | _ => none

def Form.line (form : Form) (document : Json) : Except Fault String := do
  let i ← Instr.ofJson document
  match form with
  | .pretty => i.line
  | .real => i.real
  | .full => return i.full
  | .json => return Json.write .line document

/-- The number of a line, with at least three digits. -/
def lineNumber (n : Nat) : String :=
  let s := toString n
  "".pushn '0' (3 - s.length) ++ s

/-- Prints lines until one cannot be written. -/
def listFrom (form : Form) : Nat → List Json → Console Unit
  | _, [] => pure ()
  | n, j :: js => do
    print (lineNumber n ++ " | " ++ (← ofExcept (form.line j)))
    listFrom form (n + 1) js

/-- Lists the instructions of a method; a form that there is not is a mistake of usage. -/
def list (lib : Library) (form method : String) : Console Unit := do
  match Form.ofName? form with
  | none => exit 2
  | some form =>
    let id ← ofExcept (MethodId.decode method)
    let entry ← ofExcept (lib.method id)
    let code ← ofExcept do (← (← entry.document.item "code").item "bytecode").elements
    listFrom form 0 code

end Assay.Console
