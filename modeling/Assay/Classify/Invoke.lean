import Assay.Classify.Solve
import Assay.Descriptor.Parameter
import Assay.Fuzz.Run

/-!
# Running a method on a model

The arguments are the values that a model gives to the parameters, directly or through a call of
`get`, and random values for the others.
-/

namespace Assay.Classify

open Fuzz (Draw)

/-- A random value of a simple type, and nothing for any other. -/
def randomPrimitive (type : String) : Draw Datum :=
  if type = "I" then Datum.int <$> Draw.between (-10000) 10000
  else if type = "S" then Datum.int <$> Draw.between (-1000) 1000
  else if type = "B" then Datum.int <$> Draw.between (-128) 127
  else if type = "Z" then Datum.bool <$> Draw.coin
  else if type = "C" then Datum.str <$> Fuzz.randomChar (Fuzz.lowerLetters ++ Fuzz.upperLetters)
  else if type = "F" then Datum.float <$> Draw.eighths (-1000) 1000
  else if type = "D" then Datum.float <$> Draw.eighths (-10000) 10000
  else pure .null

def randomPrimitives : List String → Draw (List Datum)
  | [] => pure []
  | t :: ts => do
    let d ← randomPrimitive t
    return d :: (← randomPrimitives ts)

/-- A random argument. -/
def randomFor : Parameter → Draw Datum
  | .plain type => randomPrimitive type
  | .object name init => do return .list (.str name :: (← randomPrimitives init))

/-- A number of a model as a value of a simple type; only a real number has a decimal text. -/
def convertPlain (isReal : Bool) (n : Int) (type : String) : Except Fault Datum :=
  if type = "I" ∨ type = "S" ∨ type = "B" ∨ type = "C" then .ok (.int n)
  else if type = "Z" then .ok (.bool (n != 0))
  else if type = "F" ∨ type = "D" then
    if isReal then .ok (.float (Float.ofInt n))
    else .error (.noMember "'IntNumRef' object has no attribute 'as_decimal'")
  else .ok .null

/-- A whole number of a model as an argument; an object gets it for all its parameters. -/
def convert (n : Int) : Parameter → Except Fault Datum
  | .plain type => convertPlain false n type
  | .object name init => do return .list (.str name :: (← init.mapM (convertPlain false n)))

/-- The value that a model has for a parameter. A model that says nothing is not asked. -/
def modelled? (s : Solved) (name : String) (p : Parameter) : Option Int :=
  match s.model with
  | none => none
  | some m =>
    if m.isEmpty then none
    else
      let valueOf (x : String) : Option Int :=
        if s.names.contains x then m.numbers.lookup x else none
      match valueOf name with
      | some n => some n
      | none =>
        match p with
        | .object .. => valueOf (name ++ ".get()")
        | .plain _ => none

/-- The arguments for parameters of these names. -/
def arguments (s : Solved) : List Parameter → List String → Draw (List Datum)
  | _, [] => pure []
  | [], _ :: _ => Draw.fail (.outOfRange "list index out of range")
  | p :: ps, x :: xs => do
    let d ← match modelled? s x p with
      | some n => liftM (convert n p)
      | none => randomFor p
    return d :: (← arguments s ps xs)

mutual

/-- The text of an argument: a list is an object. -/
def invokeText : Datum → Except Fault String
  | .str t => .ok ("'" ++ t ++ "'")
  | .bool b => .ok (if b then "true" else "false")
  | .list [] => .error (.outOfRange "list index out of range")
  | .list (name :: items) => do
    return "new " ++ name.text ++ "(" ++ ",".intercalate (← invokeTexts items) ++ ")"
  | d => .ok d.text

def invokeTexts : List Datum → Except Fault (List String)
  | [] => .ok []
  | d :: ds => do
    let t ← invokeText d
    return t :: (← invokeTexts ds)

end

/-- A run that was never started. -/
def neverRun : Fault :=
  ⟨.unset, "cannot access local variable 'result' where it is not associated with a value"⟩

/-- Runs a method with assertions disabled. A run that ends at once is repeated with new random
arguments, up to a number of times. -/
def invoke (run : Fuzz.Runner) (s : Solved) (params : List Parameter) (names : List String) :
    Nat → Draw Ending
  | 0 => Draw.fail neverRun
  | n + 1 => do
    let args ← arguments s params names
    let texts ← liftM (invokeTexts args)
    let out ← liftM (run ("(" ++ ",".intercalate texts ++ ")") true)
    if out.message = "ok" ∨ 0 < out.depth ∨ n = 0 then return out
    else invoke run s params names n

end Assay.Classify
