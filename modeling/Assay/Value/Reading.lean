import Assay.Value.Argument
import Assay.Value.Token

/-!
# Reading values

Values are read from a list of tokens, whose first is the next to be read. A reader that fails stops
where it stands.
-/

namespace Assay.Value

/-- A reader of tokens, for an input text that messages repeat. -/
abbrev Reader (α : Type) : Type := ReaderT String (ExceptT Fault (StateM (List Token))) α

namespace Reader

/-- The next token. -/
def head : Reader (Option Token) := do return (← get).head?

/-- Passes the next token. -/
def next : Reader Unit := modify List.tail

/-- Fails because something else was expected here. -/
def expected {α : Type} (what : String) : Reader α := do
  let shown :=
    match ← head with
    | some t => t.full
    | none => "None"
  throw (.malformed s!"Expected {what} but got {shown} in {← read}")

/-- Passes a token of the kind with this name. -/
def expect (label : String) : Reader Token := do
  match ← head with
  | some t => if t.kind.label = label then next; return t else expected (Text.quote label)
  | none => expected (Text.quote label)

/-- Nothing is left. -/
def eof : Reader Unit := do
  if (← head).isSome then expected "end of file"

def int : Reader Int := do
  let t ← expect "INT"
  match Text.readInt t.text with
  | .ok n => return n
  | .error e => throw e

def bool : Reader Bool := do
  return (← expect "BOOL").text = "true"

/-- The character between the apostrophes. -/
def char : Reader String := do
  return String.ofList ((← expect "CHAR").text.toList.drop 1 |>.take 1)

/-- Items of one kind after a first one, each after a comma. The fuel bounds their number. -/
def moreItems {α : Type} (item : Reader α) : Nat → Reader (List α)
  | 0 => return []
  | fuel + 1 => do
    match ← head with
    | some t =>
      if t.kind = .comma then
        next
        let x ← item
        return x :: (← moreItems item fuel)
      else return []
    | none => return []

/-- Items of one kind with commas between them, or none before the end or the `closing` kind. -/
def items {α : Type} (item : Reader α) (closing : Option Token.Kind) : Reader (List α) := do
  match ← head with
  | none => return []
  | some t =>
    if closing = some t.kind then return []
    else
      let x ← item
      return x :: (← moreItems item (← get).length)

/-- The array whose items follow its opening text. -/
def arrayItems (opening : String) : Reader Value :=
  if opening = "[I:" then
    (fun xs => Value.ofArray .int (xs.map Datum.int)) <$> items int (some .closeArray)
  else (fun xs => Value.ofArray .char (xs.map Datum.str)) <$> items char (some .closeArray)

/-- An array of numbers or of characters. -/
def array : Reader Value := do
  let opening ← expect "OPEN_ARRAY"
  let value ← arrayItems opening.text
  let _ ← expect "CLOSE_ARRAY"
  return value

/-- The class name and the argument texts of `new Name(…)`. -/
def objectParts (text : List Char) : String × List String :=
  let body := text.drop 4
  let name := body.takeWhile (· ≠ '(')
  let args := (body.drop (name.length + 1)).dropLast
  (String.ofList name, (Text.cutAt ',' args).map fun a => Text.trim (String.ofList a))

/-- The arguments of an object under the name `value`, and its class. -/
def object : Reader (Datum × ClassName) := do
  let t ← expect "OBJECT"
  let (name, args) := objectParts t.text.toList
  match args.mapM (Argument.read true) with
  | .ok vs => return (.record [("value", .list (vs.map Value.toDatum))], ⟨name⟩)
  | .error e => throw e

/-- A value of any kind. -/
def value : Reader Value := do
  match ← head with
  | none => expected "token"
  | some t =>
    match t.kind with
    | .int => return Value.ofInt (← int)
    | .char => return ⟨.char, .str (← char)⟩
    | .bool => return Value.ofBool (← bool)
    | .openArray => array
    | .object => do
      let (content, name) ← object
      return ⟨.object name, content⟩
    | .closeArray | .comma => expected "char"

/-- Values with commas between them. -/
def values : Reader (List Value) := items value none

/-- Runs a reader on tokens of an input, and gives the tokens that are left. -/
def run {α : Type} (r : Reader α) (input : String) (ts : List Token) :
    Except Fault α × List Token :=
  (ReaderT.run r input |>.run |>.run) ts

end Reader

/-- Reads the values at the front of a text. -/
def parse (s : String) : Except Fault (List Value) :=
  (Reader.values.run s (Token.scan s)).1

/-- Reads a text that holds values and nothing else. -/
def decode (s : String) : Except Fault (List Value) :=
  (Reader.run (do let vs ← Reader.values; Reader.eof; return vs) s (Token.scan s)).1

end Assay.Value
