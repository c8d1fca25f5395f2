import Assay.Descriptor.Parameter
import Assay.Fuzz.Argument
import Assay.Fuzz.Source

/-!
# Random inputs

A random argument for each parameter of a method.
-/

namespace Assay.Fuzz

def lowerLetters : List Char := "abcdefghijklmnopqrstuvwxyz".toList

def upperLetters : List Char := "ABCDEFGHIJKLMNOPQRSTUVWXYZ".toList

def digitLetters : List Char := "0123456789".toList

/-- A random character of a list. -/
def randomChar (cs : List Char) : Draw String := do
  return String.singleton (cs.getD (← Draw.below cs.length) 'a')

/-- A random value of a simple type, and nothing for any other. -/
def randomValue (type : String) : Draw Datum :=
  if type = "I" ∨ type = "S" then Datum.int <$> Draw.between (-1000) 1000
  else if type = "J" then Datum.int <$> Draw.between (-100000) 100000
  else if type = "B" then Datum.int <$> Draw.between (-128) 127
  else if type = "Z" then Datum.bool <$> Draw.coin
  else if type = "C" then Datum.str <$> randomChar (lowerLetters ++ upperLetters)
  else if type = "F" ∨ type = "D" then Datum.float <$> Draw.eighths (-1000) 1000
  else pure .null

def randomValues (type : String) : Nat → Draw (List Datum)
  | 0 => pure []
  | n + 1 => do
    let d ← randomValue type
    return d :: (← randomValues type n)

/-- An array of at most fifty random values. -/
def randomArray (type : String) : Draw Datum := do
  let n ← Draw.below 51
  return .list (.str type :: (← randomValues type n))

/-- A random value of a type that may be an array. -/
def randomOf (type : String) : Draw Datum :=
  match type.toList with
  | '[' :: c :: _ => randomArray (String.singleton c)
  | _ => randomValue type

def randomEach : List String → Draw (List Datum)
  | [] => pure []
  | t :: ts => do
    let d ← randomOf t
    return d :: (← randomEach ts)

def randomArgument : Parameter → Draw Datum
  | .plain type => randomOf type
  | .object name init => do return .list (.str name :: (← randomEach init))

/-- A random argument for each parameter. -/
def randomInput : List Parameter → Draw (List Datum)
  | [] => pure []
  | p :: ps => do
    let d ← randomArgument p
    return d :: (← randomInput ps)

end Assay.Fuzz
