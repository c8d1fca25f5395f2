import Assay.MethodId
import Assay.Sorting
import Assay.Text.Lines
import Assay.Value.Reading

/-!
# Inputs and cases

An input is a list of values in parentheses. A case is a line with a method, blanks, an input, an
arrow and the result that the method should have on that input.
-/

namespace Assay

/-- The values that a method is called with. -/
abbrev Input := List Value

namespace Input

/-- Reads an input. -/
def decode (s : String) : Except Fault Input :=
  match s.toList.head?, s.toList.getLast? with
  | some first, some last =>
    if first ≠ '(' ∧ last ≠ ')' then
      .error (.malformed s!"Expected input to be in parenthesis, but got {s}")
    else Value.decode s
  | _, _ => .error (.outOfRange "string index out of range")

def encode (i : Input) : Except Fault String := do
  return "(" ++ ", ".intercalate (← i.mapM Value.encode) ++ ")"

end Input

structure Case where
  method : MethodId
  input : Input
  result : String
  deriving Inhabited

namespace Case

/-- The three parts of the line of a case. -/
def parts? (cs : List Char) : Option (List Char × List Char × List Char) := do
  let id := cs.takeWhile (· ≠ ' ')
  let rest := cs.drop id.length
  guard (rest ≠ [])
  match rest.dropWhile (· = ' ') with
  | '(' :: inner =>
    let (args, rest) ← Text.cutAtFirst? ')' inner
    let result ← Text.after? [' ', '-', '>', ' '] rest
    return (id, '(' :: args ++ [')'], Text.firstLine result)
  | _ => none

/-- Reads a case. -/
def decode (line : String) : Except Fault Case :=
  match parts? line.toList with
  | none => .error (.malformed s!"Unexpected line: {Text.quote line}")
  | some (id, input, result) => do
    let method ← MethodId.decode (String.ofList id)
    return ⟨method, ← Input.decode (String.ofList input), String.ofList result⟩

/-- The case for a reader: the types of the method are left out. -/
def text (c : Case) : Except Fault String := do
  return s!"{c.method.owner.text}.{c.method.signature.name}:{← c.input.encode} -> {c.result}"

/-- The line of a case. -/
def encode (c : Case) : Except Fault String := do
  return s!"{c.method.encode} {← c.input.encode} -> {c.result}"

instance : BEq Case where
  beq a b := a.method == b.method && a.input == b.input && a.result == b.result

/-- Cases are compared by method, then by input, then by result. -/
def rel (r : Rel) (a b : Case) : Except Fault Bool :=
  if a.method ≠ b.method then MethodId.rel r a.method b.method
  else if a.input != b.input then
    Datum.rels r (a.input.map Value.toDatum) (b.input.map Value.toDatum)
  else .ok (r.onText a.result b.result)

/-- Adds a case to the group of its method, or makes a group for it at the end. -/
def addTo (c : Case) : List (MethodId × List Case) → List (MethodId × List Case)
  | [] => [(c.method, [c])]
  | (m, cs) :: groups =>
    if m = c.method then (m, cs ++ [c]) :: groups else (m, cs) :: addTo c groups

/-- The cases of each method, in order of the methods' first appearance. -/
def groups (cases : List Case) : List (MethodId × List Case) :=
  cases.foldl (fun gs c => addTo c gs) []

/-- The cases of each method, in order of the methods. -/
def byMethod (cases : List Case) : Except Fault (List (MethodId × List Case)) :=
  Sorting.sort (fun a b => MethodId.rel .lt a.1 b.1) (groups cases)

/-- The results that each method's cases have, in order of the methods' first appearance. -/
def results (cases : List Case) : List (MethodId × List String) :=
  (groups cases).map fun (m, cs) => (m, (cs.map Case.result).eraseDups)

/-- Reads the lines of a file of cases. -/
def decodeAll (text : String) : Except Fault (List Case) :=
  (Text.feedLines (Text.fromFile text)).mapM decode

end Case

end Assay
