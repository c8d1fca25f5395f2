import Assay.Datum

/-!
# Fuzzed arguments

An argument is a plain datum or a list that begins with its type: one letter for an array, a longer
name for an object. Doubling an array repeats its inner lists without copying them, so a later
change to one is a change to all its repetitions: lists that carry the same mark are one list.
-/

namespace Assay.Fuzz

inductive Argument where
  | plain (d : Datum)
  /-- A list; the mark 0 is carried by lists that are not repeated. -/
  | list (mark : Nat) (items : List Argument)
  deriving Inhabited

namespace Argument

mutual

def ofDatum : Datum → Argument
  | .list xs => list 0 (ofData xs)
  | d => plain d

def ofData : List Datum → List Argument
  | [] => []
  | d :: ds => ofDatum d :: ofData ds

end

mutual

def toDatum : Argument → Datum
  | plain d => d
  | list _ items => .list (toData items)

def toData : List Argument → List Datum
  | [] => []
  | a :: as => a.toDatum :: toData as

end

mutual

/-- How deep lists are nested. -/
def depth : Argument → Nat
  | plain _ => 0
  | list _ items => depths items + 1

def depths : List Argument → Nat
  | [] => 0
  | a :: as => max a.depth (depths as)

end

/-- The mark of a list. -/
def mark : Argument → Nat
  | plain _ => 0
  | list m _ => m

end Argument

/-- How long the type of a list is, as the first member of the list. -/
def typeLength : Datum → Except Fault Nat
  | .str s => .ok s.length
  | .list xs => .ok xs.length
  | .tuple xs => .ok xs.length
  | .record es => .ok es.length
  | _ => .error (.wrongShape "object has no len()")

def noFirst : Fault := .outOfRange "list index out of range"

mutual

/-- The text of an argument, as inputs are written. -/
def argumentText : Datum → Except Fault String
  | .str s => .ok ("'" ++ s ++ "'")
  | .bool b => .ok (if b then "true" else "false")
  | .list [] => .error noFirst
  | .list (base :: items) => do
    let isObject := 1 < (← typeLength base)
    let inner := ",".intercalate (← argumentTexts items)
    if isObject then return "new " ++ base.text ++ "(" ++ inner ++ ")"
    else return "[" ++ base.text ++ ":" ++ inner ++ "]"
  | d => d.write

def argumentTexts : List Datum → Except Fault (List String)
  | [] => .ok []
  | d :: ds => do
    let s ← argumentText d
    return s :: (← argumentTexts ds)

end

/-- The text of an input. -/
def inputText (input : Datum) : Except Fault String :=
  match input.elements? with
  | some ds => do return "(" ++ ",".intercalate (← argumentTexts ds) ++ ")"
  | none => .error (.wrongShape "object is not iterable")

mutual

/-- Writes an argument in place: its text, or a fault, and what is left of it. The type of a list is
taken out while the members are written, and is put back when all of them are. -/
def format : Datum → Except Fault String × Datum
  | .list (base :: items) =>
    match typeLength base with
    | .error f => (.error f, .list items)
    | .ok n =>
      match formatAll items with
      | (.error f, items) => (.error f, .list items)
      | (.ok texts, items) =>
        let inner := ",".intercalate texts
        let text := if 1 < n then "new " ++ base.text ++ "(" ++ inner ++ ")"
          else "[" ++ base.text ++ ":" ++ inner ++ "]"
        (.ok text, .list (base :: items))
  | d => (argumentText d, d)

/-- Writes arguments in place, up to the first that fails. -/
def formatAll : List Datum → Except Fault (List String) × List Datum
  | [] => (.ok [], [])
  | d :: ds =>
    match format d with
    | (.error f, d) => (.error f, d :: ds)
    | (.ok text, d) =>
      match formatAll ds with
      | (.error f, ds) => (.error f, d :: ds)
      | (.ok texts, ds) => (.ok (text :: texts), d :: ds)

end

/-- Writes an input in place: its text, or a fault, and what is left of it. -/
def formatInput : Datum → Except Fault String × Datum
  | .list ds =>
    match formatAll ds with
    | (.error f, ds) => (.error f, .list ds)
    | (.ok texts, ds) => (.ok ("(" ++ ",".intercalate texts ++ ")"), .list ds)
  | d => (inputText d, d)

/-- How many bytes a datum other than a list takes when it is written. -/
def plainSize : Datum → Except Fault Nat
  | .bool b => .ok (Datum.boolText b).length
  | .int n => if Text.isWritable n then .ok (toString n).length else .error Text.tooLong
  | .float _ => .ok 8
  | .str s => .ok s.utf8ByteSize
  | _ => .ok 0

mutual

/-- How many bytes a datum takes when it is written. -/
def size : Datum → Except Fault Nat
  | .list items => do return 2 + (← memberSizes items) + (items.length - 1)
  | d => plainSize d

/-- The size of a member of a list. An object counts its arguments only. -/
def memberSize : Datum → Except Fault Nat
  | .list items =>
    match items.head? with
    | none => .error noFirst
    | some base => do
      if 1 < (← typeLength base) then return 2 + (← argumentSizes items)
      else return 2 + (← memberSizes items) + (items.length - 1)
  | d => plainSize d

def memberSizes : List Datum → Except Fault Nat
  | [] => .ok 0
  | d :: ds => do
    let n ← memberSize d
    return n + (← memberSizes ds)

/-- The sizes of what follows the name of an object. -/
def argumentSizes : List Datum → Except Fault Nat
  | [] => .ok 0
  | _ :: ds => sizes ds

def sizes : List Datum → Except Fault Nat
  | [] => .ok 0
  | d :: ds => do
    let n ← size d
    return n + (← sizes ds)

end

end Assay.Fuzz
