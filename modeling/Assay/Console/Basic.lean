import Assay.Datum
import Assay.Log

/-!
# Programs with a console

A program prints lines, logs messages, calls other programs, writes files, and may stop before its
end. What it did before it stopped stays done.
-/

namespace Assay

/-- How a program stops before its end. -/
inductive Stop where
  | exit (code : Int)
  | fault (f : Fault)

/-- The answer of another program. -/
inductive Reply where
  /-- What it printed, the lines it complained with, and how long it took. -/
  | done (out : String) (complaints : List String) (time : Int)
  | failed
  | timedOut

/-- The other programs: the reply to a command after so many calls. A program may reply otherwise
when it is called again. -/
abbrev Programs := Nat → List String → Reply

/-- What a program has done so far. -/
structure Desk where
  /-- What stands before each line of a report. -/
  lead : String
  printed : List String
  log : List Message
  /-- The commands called, with the seconds they were given. -/
  calls : List (List String × Option Nat)
  /-- The files written or found. -/
  files : List (String × String)

namespace Desk

def empty : Desk := ⟨"", [], [], [], []⟩

end Desk

abbrev Console (α : Type) : Type := ExceptT Stop (StateM Desk) α

namespace Console

variable {α : Type}

def fail (f : Fault) : Console α := throw (.fault f)

def exit (code : Int) : Console α := throw (.exit code)

def ofExcept : Except Fault α → Console α
  | .ok a => pure a
  | .error f => fail f

def print (line : String) : Console Unit :=
  modify fun d => { d with printed := d.printed ++ [line] }

def say (level : Level) (text : String) : Console Unit :=
  modify fun d => { d with log := d.log ++ [⟨level, text⟩] }

/-- The text of a file. -/
def file? (path : String) : Console (Option String) := do
  return (← get).files.lookup path

def removeFile (path : String) : Console Unit :=
  modify fun d => { d with files := d.files.filter fun f => f.1 != path }

def writeFile (path text : String) : Console Unit := do
  removeFile path
  modify fun d => { d with files := d.files ++ [(path, text)] }

/-- What a program that replied to a command printed, and how long it took. Its complaints go to
`hear`. -/
def receive (command : List String) (hear : String → Console Unit) :
    Reply → Console (String × Int)
  | .done out complaints time => do
    complaints.forM hear
    return (out, time)
  | .failed => do
    let shown := (Datum.list (command.map Datum.str)).text
    fail ⟨.commandFailed, s!"Command '{shown}' returned non-zero exit status 1."⟩
  | .timedOut => do
    let shown := (Datum.list (command.map Datum.str)).text
    fail ⟨.timedOut, s!"Command '{shown}' timed out"⟩

/-- Calls another program. -/
def call (programs : Programs) (command : List String) (seconds : Option Nat)
    (hear : String → Console Unit) : Console (String × Int) := do
  let before := (← get).calls.length
  modify fun d => { d with calls := d.calls ++ [(command, seconds)] }
  receive command hear (programs before command)

/-- Runs a program; the code is one after a fault. -/
def start (c : Console α) (d : Desk) : Except Stop α × Desk := c.run.run d

/-- What another program, run to its end, hands back with the fault it met, if any. -/
def attempt (c : Console α) : Console (Except Fault α) := do
  let (r, d) := c.start (← get)
  set d
  match r with
  | .ok a => return .ok a
  | .error (.fault f) => return .error f
  | .error (.exit code) => exit code

end Console

end Assay
