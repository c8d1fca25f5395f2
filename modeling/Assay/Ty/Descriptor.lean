import Assay.Fault
import Assay.Ty.Basic

/-!
# Reading descriptors

A descriptor is a letter, an array mark before a descriptor, or `Lpath/to/class<init>…;`. Whatever
follows the class name of an object up to the semicolon describes its constructor and is not part
of the type.
-/

namespace Assay.Ty

/-- The type with a one-letter descriptor. -/
def ofLetter? : Char → Option Ty
  | 'Z' => some boolean
  | 'I' => some int
  | 'B' => some byte
  | 'C' => some char
  | 'S' => some short
  | 'J' => some long
  | 'F' => some float
  | 'D' => some double
  | 'A' => some reference
  | _ => none

def classForm : Fault :=
  .malformed "Class definition is: Lpath/to/class<init>CONSTRUCTOR_INPUT_TYPE;"

def unterminated (whole : String) : Fault :=
  .malformed s!"Unterminated object type in {Text.quote whole}"

/-- The class of an object descriptor, from the text between its `L` and its semicolon. -/
def classOf (inner : List Char) : Except Fault ClassName :=
  match Text.cutAtFirst? '<' inner with
  | some (c :: cs, _) => .ok ⟨Text.replaceChar '/' '.' (String.ofList (c :: cs))⟩
  | _ => .error classForm

/-- The type at the front of a descriptor, and what follows it. The first argument is the whole
text, for messages. -/
def decodeFrom (whole : String) : List Char → Except Fault (Ty × List Char)
  | [] => .error (.malformed s!"Could not decode {whole}")
  | c :: cs =>
    if c = '[' then do
      let (t, rest) ← decodeFrom whole cs
      return (array t, rest)
    else if c = 'L' then
      match Text.cutAtFirst? ';' cs with
      | none => .error (unterminated whole)
      | some (inner, rest) => do
        let name ← classOf inner
        return (object name, rest)
    else
      match ofLetter? c with
      | some t => .ok (t, cs)
      | none => .error (.malformed s!"Unknown type {c}")

/-- The type at the front of a text, and what follows it. -/
def decode (s : String) : Except Fault (Ty × String) := do
  let (t, rest) ← decodeFrom s s.toList
  return (t, String.ofList rest)

/-- A list of types, one after the other. The fuel bounds their number. -/
def decodeAllFrom : Nat → List Char → Except Fault (List Ty)
  | _, [] => .ok []
  | 0, _ :: _ => .ok []
  | fuel + 1, c :: cs => do
    let (t, rest) ← decodeFrom (String.ofList (c :: cs)) (c :: cs)
    return t :: (← decodeAllFrom fuel rest)

/-- The parameter types of a method, one after the other. -/
def decodeAll (cs : List Char) : Except Fault (List Ty) :=
  decodeAllFrom cs.length cs

end Assay.Ty
