import Assay.Decimal.Reading
import Assay.Fuzz.Generate

/-!
# Mutations

Two ways of changing an argument: small changes, which keep the shape of lists and change what is in
them, and havoc, which also makes lists and texts longer or shorter. One draw decides which of
them is used for an input; the arguments of an object are all changed, any other argument only if a
coin says so.
-/

namespace Assay.Fuzz

/-- The number with one bit of its two's complement flipped. -/
def flipBit (n : Int) (k : Nat) : Int :=
  if n / Nat.pow 2 k % 2 = 1 then n - Nat.pow 2 k else n + Nat.pow 2 k

/-- Half of a floating-point number, rounded down. -/
def floorHalf (x : Float) : Float :=
  if !Decimal.isFinite x then Decimal.nan
  else if x / 2 * 2 == x then (x / 2).floor
  else if x < 0 then -1 else 0

/-- Data of these shapes cannot be combined by an operator. -/
def badOperands (op left right : String) : Fault :=
  .wrongShape s!"unsupported operand type(s) for {op}: '{left}' and '{right}'"

/-- Adds a whole number. -/
def addInt (n : Int) : Datum → Except Fault Datum
  | .float x => .ok (.float (x + Float.ofInt n))
  | .str _ => .error (.wrongShape "can only concatenate str (not \"int\") to str")
  | d =>
    match d.asInt? with
    | some m => .ok (.int (m + n))
    | none => .error (badOperands "+" d.shape "int")

def square : Datum → Except Fault Datum
  | .float x => .ok (.float (x * x))
  | .str _ => .error (.wrongShape "can't multiply sequence by non-int of type 'str'")
  | d => .error (badOperands "*" d.shape d.shape)

def double : Datum → Except Fault Datum
  | .float x => .ok (.float (x * 2))
  | .int n => .ok (.int (n * 2))
  | d => .error (badOperands "*" d.shape "int")

def halve : Datum → Except Fault Datum
  | .float x => .ok (.float (if x == 0 then x else floorHalf x))
  | .int n => .ok (.int (n / 2))
  | d => if d.truthy then .error (badOperands "//" d.shape "int") else .ok d

/-- The characters that small changes may leave in a text. -/
def safeChars : List Char := lowerLetters ++ upperLetters ++ digitLetters

/-- A text with one bit of one character flipped, if it is a part of the safe characters, else one
of those. -/
def changeText (cs : List Char) : Draw Datum := do
  let i ← Draw.below cs.length
  let k ← Draw.below 7
  let changed := cs.modify i fun c => Char.ofNat (c.toNat ^^^ Nat.pow 2 k)
  if Text.hasWord (String.ofList changed) (String.ofList safeChars) then
    return .str (String.ofList changed)
  else return .str (← randomChar safeChars)

/-- A small change of a number, or of anything else that is neither truth value nor text. -/
def changeNumber (d : Datum) : Draw Datum := do
  match ← Draw.below 3 with
  | 0 =>
    match d with
    | .int n => return .int (flipBit n (← Draw.below 8))
    | d => liftExcept (square d)
  | 1 => liftExcept (addInt (← Draw.between (-100) 100) d)
  | _ => return .int (← Draw.oneOf (-1) [0, 1, 128, -128])
where
  liftExcept (r : Except Fault Datum) : Draw Datum := liftM r

/-- A small change of a datum that is not a list. -/
def changePlain : Datum → Draw Datum
  | .bool b => do return .bool (b && (← Draw.coin))
  | .str s => if s.isEmpty then changeNumber (.str s) else changeText s.toList
  | d => changeNumber d

/-- Applies a change to each member. A marked list is changed once for each of its occurrences;
the second result has what became of the marked lists. -/
def changeItems (change : Argument → Draw Argument) :
    List (Nat × Argument) → List Argument → Draw (List Argument × List (Nat × Argument))
  | table, [] => pure ([], table)
  | table, a :: as => do
    let b ← change (if a.mark = 0 then a else (table.lookup a.mark).getD a)
    let (bs, table) ← changeItems change
      (if a.mark = 0 then table else (a.mark, b) :: table) as
    return (b :: bs, table)

/-- Gives every occurrence of a marked list its last content. -/
def settle (table : List (Nat × Argument)) (items : List Argument) : List Argument :=
  items.map fun a => if a.mark = 0 then a else (table.lookup a.mark).getD a

/-- A small change, to every member of a list but its type. -/
def change : Nat → Argument → Draw Argument
  | _, .plain d => Argument.plain <$> changePlain d
  | _, .list _ [] => Draw.fail noFirst
  | 0, a => pure a
  | fuel + 1, .list m (base :: items) => do
    let (items, table) ← changeItems (change fuel) [] items
    return .list m (base :: settle table items)

/-- Gives every inner list a mark of its own. -/
def markLists : Nat → List Argument → List Argument
  | _, [] => []
  | n, .list 0 items :: as => .list n items :: markLists (n + 1) as
  | n, a :: as => a :: markLists n as

/-- A list twice. -/
def doubled (items : List Argument) : List Argument :=
  let marked := markLists (items.foldl (fun n a => max n a.mark) 0 + 1) items
  marked ++ marked

/-- The name of a type, or nothing if it is not a text. -/
def typeName : Argument → String
  | .plain (.str s) => s
  | _ => ""

/-- Havoc on a datum that is not a list. -/
def upsetPlain : Datum → Draw Datum
  | .str s => do
    match ← Draw.below 4 with
    | 0 => return .str (s.push (Char.ofNat (32 + (← Draw.below 95))))
    | 1 => return .str (String.ofList s.toList.dropLast)
    | 2 => return .str (s ++ s)
    | _ => return .str (String.ofList s.toList.reverse)
  | .bool b => do return .int (flipBit (if b then 1 else 0) (← Draw.below 8))
  | d => do
    match ← Draw.below 3 with
    | 0 => liftM (addInt (← Draw.between (-100) 100) d)
    | 1 => liftM (double d)
    | _ => liftM (halve d)

/-- Havoc: a list gets a member, loses one, is doubled or reversed. -/
def upset : Argument → Draw Argument
  | .plain d => Argument.plain <$> upsetPlain d
  | .list _ [] => Draw.fail noFirst
  | .list _ (base :: items) => do
    match ← Draw.below 4 with
    | 0 => return .list 0 (base :: items ++ [.plain (← randomValue (typeName base))])
    | 1 => return .list 0 (base :: items.dropLast)
    | 2 => return .list 0 (base :: doubled items)
    | _ => return .list 0 (base :: items.reverse)

/-- The way of changing arguments that one draw decides. -/
def mutation : Draw (Argument → Draw Argument) := do
  if ← Draw.coin then return upset else return fun a => change a.depth a

/-- Applies an operation to each member in turn. -/
def eachOf (f : Argument → Draw Argument) : List Argument → Draw (List Argument)
  | [] => pure []
  | a :: as => do
    let b ← f a
    return b :: (← eachOf f as)

/-- Changes an argument of an input. -/
def mutateArgument (f : Argument → Draw Argument) : Argument → Draw Argument
  | .list _ [] => Draw.fail noFirst
  | .list m (base :: items) => do
    if 1 < (← liftM (typeLength base.toDatum)) then
      return .list m (base :: (← eachOf f items))
    else if ← Draw.coin then f (.list m (base :: items)) else return .list m (base :: items)
  | a => do if ← Draw.coin then f a else return a

/-- Changes an input. -/
def mutate (input : Argument) : Draw Argument := do
  let f ← mutation
  match input with
  | .list m items => return .list m (← eachOf (mutateArgument f) items)
  | a => f a

end Assay.Fuzz
