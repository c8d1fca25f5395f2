import Assay.Decimal.Written
import Assay.Json.Basic
import Assay.Term.Text
import Assay.Text.Digit
import Assay.Ty.Order

/-!
# Data

The untyped contents of values: what a class file, an input text or the machine can put into a
value, and the text of each. A text inside a list, tuple or record is shown in quotes.
-/

namespace Assay

inductive Datum where
  | null
  | bool (b : Bool)
  | int (n : Int)
  | float (x : Float)
  | str (s : String)
  | list (xs : List Datum)
  | tuple (xs : List Datum)
  /-- Named entries, in order of insertion. -/
  | record (entries : List (String × Datum))
  /-- A datum with its type. -/
  | value (type : Ty) (content : Datum)
  | term (t : Term)
  deriving Inhabited

namespace Datum

mutual

/-- A document as a datum. -/
def ofJson : Json → Datum
  | .null => null
  | .bool b => bool b
  | .int n => int n
  | .float x => float x
  | .str s => str s
  | .arr xs => list (ofJsons xs)
  | .obj entries => record (ofEntries entries)

def ofJsons : List Json → List Datum
  | [] => []
  | j :: js => ofJson j :: ofJsons js

def ofEntries : List (String × Json) → List (String × Datum)
  | [] => []
  | (k, j) :: es => (k, ofJson j) :: ofEntries es

end

def boolText (b : Bool) : String := if b then "True" else "False"

mutual

/-- The text of a datum inside another. -/
def full : Datum → String
  | null => "None"
  | bool b => boolText b
  | int n => toString n
  | float x => Decimal.write x
  | str s => Text.quote s
  | list xs => "[" ++ ", ".intercalate (fulls xs) ++ "]"
  | tuple [x] => "(" ++ full x ++ ",)"
  | tuple xs => "(" ++ ", ".intercalate (fulls xs) ++ ")"
  | record es => "\x7b" ++ ", ".intercalate (fullEntries es) ++ "\x7d"
  | value t d => "Value(type=" ++ t.full ++ ", value=" ++ full d ++ ")"
  | term t => t.text

def fulls : List Datum → List String
  | [] => []
  | d :: ds => full d :: fulls ds

def fullEntries : List (String × Datum) → List String
  | [] => []
  | (k, d) :: es => (Text.quote k ++ ": " ++ full d) :: fullEntries es

end

/-- The text of a datum by itself. -/
def text : Datum → String
  | str s => s
  | value t d =>
    let inner :=
      match d with
      | str s => s
      | value .. => full d
      | d => full d
    "(" ++ t.math ++ " " ++ inner ++ ")"
  | d => full d

mutual

/-- No number in the datum is too long to be written. -/
def isWritable : Datum → Bool
  | int n => Text.isWritable n
  | list xs => areWritable xs
  | tuple xs => areWritable xs
  | record es => areWritableEntries es
  | value _ d => isWritable d
  | _ => true

def areWritable : List Datum → Bool
  | [] => true
  | d :: ds => isWritable d && areWritable ds

def areWritableEntries : List (String × Datum) → Bool
  | [] => true
  | (_, d) :: es => isWritable d && areWritableEntries es

end

/-- The text of a datum by itself, unless a number in it is too long. -/
def write (d : Datum) : Except Fault String :=
  if d.isWritable then .ok d.text else .error Text.tooLong

/-- The name of the shape of a datum, as faults give it. -/
def shape : Datum → String
  | null => "NoneType"
  | bool _ => "bool"
  | int _ => "int"
  | float _ => "float"
  | str _ => "str"
  | list _ => "list"
  | tuple _ => "tuple"
  | record _ => "dict"
  | value .. => "Value"
  | term _ => "BoolRef"

/-- The whole number that a number or truth value stands for. -/
def asInt? : Datum → Option Int
  | int n => some n
  | bool b => some (if b then 1 else 0)
  | _ => none

/-- A number or truth value as a floating-point number. -/
def asFloat? : Datum → Option Float
  | int n => some (Float.ofInt n)
  | bool b => some (if b then 1 else 0)
  | float x => some x
  | _ => none

mutual

/-- Two data are equal: numbers and truth values by value, all others by shape and content. -/
def same : Datum → Datum → Bool
  | null, null => true
  | bool a, bool b => a == b
  | int a, int b => a == b
  | bool a, int b => (if a then 1 else 0) == b
  | int a, bool b => a == (if b then 1 else 0)
  | float a, float b => a == b
  | float a, int b => a == Float.ofInt b
  | int a, float b => Float.ofInt a == b
  | float a, bool b => a == (if b then 1 else 0)
  | bool a, float b => (if a then 1 else 0) == b
  | str a, str b => a == b
  | list a, list b => sames a b
  | tuple a, tuple b => sames a b
  | record a, record b => a.length == b.length && sameEntries a b
  | value t a, value u b => t == u && same a b
  | term a, term b => a == b
  | _, _ => false

def sames : List Datum → List Datum → Bool
  | [], [] => true
  | a :: as, b :: bs => same a b && sames as bs
  | _, _ => false

/-- Every entry of the first list has an equal one in the second. -/
def sameEntries : List (String × Datum) → List (String × Datum) → Bool
  | [], _ => true
  | (k, a) :: es, other =>
    (match other.lookup k with
      | some b => same a b
      | none => false) && sameEntries es other

end

instance : BEq Datum := ⟨same⟩

/-- Two data are not comparable. -/
def incomparable (r : Rel) (a b : Datum) : Fault :=
  let mark :=
    match r with
    | .lt => "<"
    | .le => "<="
    | .gt => ">"
    | .ge => ">="
  .wrongShape s!"'{mark}' not supported between instances of '{a.shape}' and '{b.shape}'"

def relFloat : Rel → Float → Float → Bool
  | .lt, a, b => a < b
  | .le, a, b => a ≤ b
  | .gt, a, b => b < a
  | .ge, a, b => b ≤ a

mutual

/-- Numbers and texts are compared with their own kind, sequences at the first place where they
differ, typed data by type and then by content. -/
def rel (r : Rel) : Datum → Datum → Except Fault Bool
  | str a, str b => .ok (r.onText a b)
  | list a, list b => rels r a b
  | tuple a, tuple b => rels r a b
  | value t a, value u b =>
    if t = u then if same a b then .ok r.onEqual else rel r a b else Ty.rel r t u
  | a, b =>
    match a.asInt?, b.asInt? with
    | some m, some n => .ok (r.onInt m n)
    | _, _ =>
      match a.asFloat?, b.asFloat? with
      | some x, some y => .ok (relFloat r x y)
      | _, _ => .error (incomparable r a b)

def rels (r : Rel) : List Datum → List Datum → Except Fault Bool
  | [], [] => .ok r.onEqual
  | [], _ :: _ => .ok (r.onInt 0 1)
  | _ :: _, [] => .ok (r.onInt 1 0)
  | a :: as, b :: bs => if same a b then rels r as bs else rel r a b

end

/-- The datum counts as true: it is neither empty, zero nor null. -/
def truthy : Datum → Bool
  | null => false
  | bool b => b
  | int n => n != 0
  | float x => x != 0
  | str s => !s.isEmpty
  | list xs => !xs.isEmpty
  | tuple xs => !xs.isEmpty
  | record es => !es.isEmpty
  | value .. => true
  | term (.truth b) => b
  | term (.bin .eq a b) => a == b
  | term (.bin .ne a b) => a != b
  | term _ => false

/-- What a sequence yields, the keys of a record, the characters of a text. -/
def elements? : Datum → Option (List Datum)
  | list xs => some xs
  | tuple xs => some xs
  | record es => some (es.map fun e => str e.1)
  | str s => some (s.toList.map fun c => str (String.singleton c))
  | _ => none

end Datum

/-- A datum with its type. -/
structure Value where
  type : Ty
  content : Datum
  deriving Inhabited

namespace Value

def toDatum (v : Value) : Datum := .value v.type v.content

def ofInt (n : Int) : Value := ⟨.int, .int n⟩

def ofBool (b : Bool) : Value := ⟨.boolean, .bool b⟩

/-- The value of a text of one character. -/
def ofChar (s : String) : Except Fault Value :=
  if s.length = 1 then .ok ⟨.char, .str s⟩
  else .error (.violated s!"string should be exactly one char, was {Text.quote s}")

def ofArray (element : Ty) (contents : List Datum) : Value := ⟨.array element, .tuple contents⟩

/-- The formula of a value. -/
def math (v : Value) : String := v.toDatum.text

/-- The full name of a value. -/
def full (v : Value) : String := v.toDatum.full

instance : BEq Value := ⟨fun a b => a.toDatum == b.toDatum⟩

end Value

end Assay
