import Assay.Fault
import Assay.Text.Cut

/-!
# Parameters

What stands between the parentheses of a method identifier, read for generating arguments: letters,
arrays of one dimension, and objects `Lname<init>letters;` with the parameters of their constructor.
Two readers exist; the plain one knows no arrays and takes them apart.
-/

namespace Assay

inductive Parameter where
  /-- A letter, or a bracket and a letter. -/
  | plain (type : String)
  | object (name : String) (init : List String)
  deriving DecidableEq, Inhabited

namespace Parameter

/-- The text between the first opening and the first closing parenthesis. -/
def inside (method : String) : Except Fault (List Char) :=
  let cs := method.toList
  match cs.idxOf? '(', cs.idxOf? ')' with
  | some i, some j => .ok (Text.slice (i + 1) j cs)
  | _, _ => .error (.malformed "substring not found")

/-- The parameters of a constructor. -/
def initLetters : List Char → Except Fault (List String)
  | [] => .ok []
  | '[' :: [] => .error (.outOfRange "string index out of range")
  | '[' :: c :: cs => do return String.ofList ['[', c] :: (← initLetters cs)
  | c :: cs => do return String.singleton c :: (← initLetters cs)

/-- The parameter at the front, and the rest. -/
def next : List Char → Except Fault (Parameter × List Char)
  | [] => .error (.outOfRange "string index out of range")
  | 'L' :: cs =>
    let all := 'L' :: cs
    let marker := Text.position "<init>" all
    let stop := Text.position ";" all
    let name := Text.slice 1 marker all
    do return (object (String.ofList name) (← initLetters (Text.slice (marker + 6) stop all)),
      Text.slice (stop + 1) all.length all)
  | '[' :: [] => .error (.outOfRange "string index out of range")
  | '[' :: c :: cs => .ok (plain (String.ofList ['[', c]), cs)
  | c :: cs => .ok (plain (String.singleton c), cs)

/-- Reads parameters until nothing is left. An object without its end is read for ever. -/
def scan : Nat → List Char → Except Fault (List Parameter)
  | _, [] => .ok []
  | 0, _ => .error .endless
  | fuel + 1, cs => do
    let (p, rest) ← next cs
    if rest.length < cs.length then return p :: (← scan fuel rest) else .error .endless

/-- The parameters of a method. -/
def ofMethod (method : String) : Except Fault (List Parameter) := do
  let cs ← inside method
  scan cs.length cs

/-- The parameter at the front, and the rest, without arrays. -/
def nextPlain : List Char → Except Fault (Parameter × List Char)
  | [] => .error (.outOfRange "string index out of range")
  | 'L' :: cs =>
    match Text.cutAtFirst? ';' cs with
    | none => .error (.malformed "substring not found")
    | some (descriptor, rest) =>
      match Text.cutAtWord? "<init>".toList descriptor with
      | none => .error (.malformed "substring not found")
      | some (name, init) => .ok (object (String.ofList name) (init.map String.singleton), rest)
  | c :: cs => .ok (plain (String.singleton c), cs)

def scanPlain : Nat → List Char → Except Fault (List Parameter)
  | _, [] => .ok []
  | 0, _ => .error .endless
  | fuel + 1, cs => do
    let (p, rest) ← nextPlain cs
    return p :: (← scanPlain fuel rest)

/-- The parameters of a method, without arrays. -/
def ofMethodPlain (method : String) : Except Fault (List Parameter) := do
  let cs ← inside method
  scanPlain cs.length cs

end Parameter

end Assay
