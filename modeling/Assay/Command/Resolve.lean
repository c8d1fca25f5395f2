import Assay.Console.Basic
import Assay.Suite.Path

/-!
# Commands of scripts

A script is run by an interpreter, which is put in front of it. Whether a program is a script is
said outright or seen from its ending.
-/

namespace Assay.Command

/-- The path of a file seen from a folder that encloses it. -/
def relative? (folder file : String) : Option String :=
  let f := Suite.Path.ofText folder
  let p := Suite.Path.ofText file
  if f.absolute = p.absolute ∧ f.segments.isPrefixOf p.segments then
    match p.segments.drop f.segments.length with
    | [] => some "."
    | rest => some ("/".intercalate rest)
  else none

/-- The name of a script. -/
def isScript (name : String) : Bool := name.toLower.endsWith ".py"

def scriptWarning : String :=
  "Automatically prepending the current python interpreter to the command. " ++
    "To disable this warning add the '--with-python' flag or prepend intented python " ++
    "interpreter to the command."

def outsideWarning : String :=
  "Python executable outside of current directory, might be a misconfiguration. " ++
    "Run the tool with `uv run jpamb ...`."

/-- Whether a program is to be run by the interpreter. -/
def scripted (program : List String) : Option Bool → Console Bool
  | some b => pure b
  | none =>
    match program with
    | [] => Console.fail (.outOfRange "tuple index out of range")
    | name :: _ =>
      if isScript name then do
        Console.say .warning scriptWarning
        return true
      else pure false

/-- The command of a program, with the interpreter in front if it is a script. -/
def resolve (folder interpreter : String) (program : List String) (script : Option Bool) :
    Console (List String) := do
  if ← scripted program script then
    match relative? folder interpreter with
    | some path => return path :: program
    | none =>
      Console.say .warning outsideWarning
      return interpreter :: program
  else return program

end Assay.Command
