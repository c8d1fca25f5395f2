import Assay.Datum
import Assay.Text.Cut
import Assay.Text.Digit

/-!
# Arguments of constructors

An argument inside `new Name(…)` is a number, an array `[I:…]` or `[C:…]`, or one character.
Two readers exist, which differ in whether a number may have a sign.
-/

namespace Assay.Value.Argument

open Text

/-- The text without a line feed at its end. -/
def dropFeed (cs : List Char) : List Char :=
  match cs.getLast? with
  | some '\n' => cs.dropLast
  | _ => cs

/-- The text is a number: ASCII digits, after a minus sign if the reader is `signed`. -/
def isNumber (signed : Bool) (cs : List Char) : Bool :=
  let body :=
    match dropFeed cs with
    | '-' :: r => if signed then r else '-' :: r
    | r => r
  !body.isEmpty && body.all Char.isDigit

/-- The content of the text up to the first `]`: not empty, and without the blanks at its front,
of which one stays if there is nothing else. -/
def content? (cs : List Char) : Option (List Char) :=
  match cutAtFirst? ']' cs with
  | some (c :: inner, _) =>
    let kept := (c :: inner).dropWhile isBlank
    some (if kept.isEmpty then (c :: inner).drop inner.length else kept)
  | _ => none

/-- The first array in the text: its element letter and its content. -/
def array? : List Char → Option (Char × List Char)
  | [] => none
  | c :: cs =>
    match c, cs with
    | '[', k :: ':' :: r =>
      if k = 'I' ∨ k = 'C' then
        match content? r with
        | some inner => some (k, inner)
        | none => array? cs
      else array? cs
    | _, _ => array? cs

/-- The elements of an array's content. -/
def elements (inner : List Char) : List String :=
  (cutAt ',' (dropEnds (fun c => c = '(' ∨ c = ')') inner)).map fun p => trim (String.ofList p)

def unsupported : Fault := .malformed "Unsupported type of input to the object's constructor"

/-- The text is a single character other than an ASCII digit and a comma. -/
def isCharacter (cs : List Char) : Bool :=
  match cs with
  | [c] => !c.isDigit && c != ','
  | [c, '\n'] => !c.isDigit && c != ','
  | _ => false

/-- Reads an argument. -/
def read (signed : Bool) (s : String) : Except Fault Value :=
  let cs := s.toList
  if isNumber signed cs then (readInt s).map Value.ofInt
  else
    match array? cs with
    | some ('I', inner) => do
      let xs ← (elements inner).mapM readInt
      return Value.ofArray .int (xs.map fun n => (Value.ofInt n).toDatum)
    | some (_, inner) => do
      let xs ← (elements inner).mapM Value.ofChar
      return Value.ofArray .char (xs.map Value.toDatum)
    | none => if isCharacter cs then Value.ofChar s else .error unsupported

end Assay.Value.Argument
