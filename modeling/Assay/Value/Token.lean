import Assay.Text.Cut
import Assay.Text.Digit

/-!
# Tokens of value texts

The words that inputs are made of. Between them, blanks and all other characters are skipped.
-/

namespace Assay

namespace Token

inductive Kind where
  | openArray | closeArray | int | object | bool | char | comma
  deriving DecidableEq, Inhabited

/-- The name of a kind, as messages give it. -/
def Kind.label : Kind → String
  | openArray => "OPEN_ARRAY"
  | closeArray => "CLOSE_ARRAY"
  | int => "INT"
  | object => "OBJECT"
  | bool => "BOOL"
  | char => "CHAR"
  | comma => "COMMA"

end Token

structure Token where
  kind : Token.Kind
  text : String
  deriving DecidableEq, Inhabited

namespace Token

def full (t : Token) : String :=
  s!"Token(kind={Text.quote t.kind.label}, value={Text.quote t.text})"

/-- A character of a class name after `new`. -/
def isNameChar (c : Char) : Bool :=
  c.isAlphanum || c == '_' || c == '.' || c == '/' || c == '$'

/-- The length of `new Name(…)` at the front of the text, up to the first `)`. -/
def objectLength? (cs : List Char) : Option Nat :=
  match Text.after? ['n', 'e', 'w', ' '] cs with
  | none => none
  | some r =>
    let name := r.takeWhile isNameChar
    match name, r.dropWhile isNameChar with
    | _ :: _, '(' :: args =>
      match Text.cutAtFirst? ')' args with
      | some (inner, _) => some (4 + name.length + 1 + inner.length + 1)
      | none => none
    | _, _ => none

/-- The kind and the length of the token at the front of the text. -/
def first? (cs : List Char) : Option (Kind × Nat) :=
  match cs with
  | [] => none
  | c :: r =>
    if c = '[' then
      match r with
      | k :: ':' :: _ => if k = 'I' ∨ k = 'C' then some (.openArray, 3) else none
      | _ => none
    else if c = ']' then some (.closeArray, 1)
    else if c = ',' then some (.comma, 1)
    else if Text.isDecimal c then some (.int, 1 + (r.takeWhile Text.isDecimal).length)
    else if c = '-' then
      match (r.takeWhile Text.isDecimal).length with
      | 0 => none
      | n => some (.int, 1 + n)
    else if c = '\'' then
      match r with
      | x :: '\'' :: _ => if x = '\'' then none else some (.char, 3)
      | _ => none
    else if c = 'n' then (objectLength? cs).map fun n => (.object, n)
    else if (Text.after? ['t', 'r', 'u', 'e'] cs).isSome then some (.bool, 4)
    else if (Text.after? ['f', 'a', 'l', 's', 'e'] cs).isSome then some (.bool, 5)
    else none

/-- The tokens of a text after its first `skip` characters. -/
def scanFrom : Nat → List Char → List Token
  | _, [] => []
  | skip + 1, _ :: cs => scanFrom skip cs
  | 0, c :: cs =>
    match first? (c :: cs) with
    | some (kind, n) => ⟨kind, String.ofList ((c :: cs).take n)⟩ :: scanFrom (n - 1) cs
    | none => scanFrom 0 cs

/-- The tokens of a text. -/
def scan (s : String) : List Token := scanFrom 0 s.toList

end Token

end Assay
