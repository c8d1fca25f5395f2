import Assay.Constraint.Oracle
import Assay.Corpus.Branch
import Assay.Corpus.Expression
import Assay.Descriptor.Parameter
import Assay.Symbolic.Explore

/-!
# Corpora from branches

An input for each branch that can be taken: the values of a model of its conditions, in order of
the variables' names, padded for parameters that no condition mentions.
-/

namespace Assay.Corpus

/-- A variable for a parameter of this letter. -/
def variableFor (name : String) (letter : Char) : Except Fault Term :=
  if letter = 'I' ∨ letter = 'C' then .ok (.var name)
  else if letter = 'Z' then .ok (.flag name)
  else .error (.malformed s!"Unknown type '{letter}'")

/-- The conditions as terms. -/
def constraints (env : List (String × Term)) (conditions : List String) :
    Except Fault (List Term) :=
  conditions.mapM fun c =>
    match Expression.parse? c with
    | some e => do Operand.truthOf (← e.eval env)
    | none => .error ⟨.badSyntax, "invalid syntax"⟩

/-- The character with a number. -/
def character (n : Int) : Except Fault String :=
  if n < -2147483648 ∨ 2147483648 ≤ n then .error ⟨.overflow, "number too large"⟩
  else if n < 0 ∨ 0x110000 ≤ n then .error (.malformed "chr() arg not in range(0x110000)")
  else .ok (String.singleton (Char.ofNat n.toNat))

/-- The value that a model gives to a variable. -/
def valueIn (m : Model) (name : String) (letter : Char) : Except Fault Datum :=
  if letter = 'Z' then
    match m.truths.lookup name with
    | some b => .ok (.term (.bin .eq (.truth b) (.truth true)))
    | none => .ok (.bool false)
  else
    match m.numbers.lookup name with
    | none => .error (.noMember "'NoneType' object has no attribute 'as_long'")
    | some n =>
      if !Text.isWritable n then .error (Text.unreadable (Nat.toDigits 10 n.natAbs).length)
      else if letter = 'C' then do return .str (← character n)
      else .ok (.int n)

/-- The value for a parameter that no condition mentions. -/
def padding (letter : Char) : Except Fault Datum :=
  if letter = 'I' then .ok (.int 0)
  else if letter = 'C' then .ok (.str "a")
  else if letter = 'Z' then .ok (.bool false)
  else .error .endless

/-- Values for the parameters that satisfy the conditions, or nothing if there are none. -/
def solveBranch (oracle : Oracle) (conditions : List String) (letters : List Char) :
    Except Fault (Option (List Datum)) := do
  let names := (mentioned conditions).zip letters
  let env ← names.mapM fun (x, l) => do return (x, ← variableFor x l)
  let ts ← constraints env conditions
  match oracle ts with
  | .sat m =>
    let values ← names.mapM fun (x, l) => valueIn m x l
    return some (values ++ (← (letters.drop values.length).mapM padding))
  | _ => return none

/-- As many values as there are parameters. -/
def takeInputs (letters : List Char) (solution : List Datum) : Except Fault (List Datum) :=
  if solution.length < letters.length then
    .error (.malformed "Not enough symbolic values to fill all parameters.")
  else .ok (solution.take letters.length)

/-- The inputs of the branches that can be taken. -/
def inputsOf (oracle : Oracle) (letters : List Char) : List BranchLine →
    Except Fault (List (List Datum))
  | [] => .ok []
  | b :: bs => do
    if b.status = "SAT" then
      match ← solveBranch oracle b.conditions letters with
      | some (v :: vs) =>
        let input ← takeInputs letters (v :: vs)
        return input :: (← inputsOf oracle letters bs)
      | _ => inputsOf oracle letters bs
    else inputsOf oracle letters bs

/-- Keeps the first of equal inputs. -/
def distinct (inputs : List (List Datum)) : List (List Datum) :=
  inputs.foldl (fun acc x => if acc.any fun y => Datum.sames y x then acc else acc ++ [x]) []

/-- Turns the argument at an index into an object. -/
def wrapAt (name : String) (index : Nat) (input : List Datum) : Except Fault (List Datum) :=
  match input[index]? with
  | some d => .ok (input.set index (.list [.str name, d]))
  | none => .error (.outOfRange "list index out of range")

/-- Turns the arguments of object parameters into objects. An array counts as two parameters here,
and an object without its end is met again and again. -/
def wrapObjects : Nat → List Char → Nat → List (List Datum) → Except Fault (List (List Datum))
  | _, [], _, inputs => .ok inputs
  | 0, _, _, _ => .error .endless
  | fuel + 1, 'L' :: cs, index, inputs => do
    let all := 'L' :: cs
    let name := String.ofList (Text.slice 1 (Text.position "<init>" all) all)
    let inputs ← inputs.mapM (wrapAt name index)
    wrapObjects fuel (Text.slice (Text.position ";" all + 1) all.length all) (index + 1) inputs
  | fuel + 1, _ :: cs, index, inputs => wrapObjects fuel cs (index + 1) inputs

/-- The inputs for the branches of a method: `letters` has a simple type for each parameter, and
`params` is the text of the parameters. -/
def generate (oracle : Oracle) (branches : List String) (letters params : List Char) :
    Except Fault (List (List Datum)) := do
  let inputs := distinct (← inputsOf oracle letters (parseBranches branches))
  wrapObjects (params.length + letters.length + 1) params 0 inputs

/-- How many parameters can be named: each has a character of its own, from `a` on. -/
def nameCount : Nat := 0x110000 - 'a'.toNat

/-- There is no character left for a parameter. -/
def nameless : Fault := .malformed "chr() arg not in range(0x110000)"

/-- One simple type per parameter, and the count of parameters. The letter of an object is the last
one before its end; after an array the next two letters are taken. An object without its end is met
again and again, until there is no name left for it. -/
def lettersOf : Nat → List Char → Except Fault (List Char × Nat)
  | _, [] => .ok ([], 0)
  | 0, _ => .error .endless
  | fuel + 1, 'L' :: cs => do
    let all := 'L' :: cs
    let stop := Text.position ";" all
    if stop < 0 then .error nameless
    else
      let (ls, n) ← lettersOf fuel (Text.slice (stop + 1) all.length all)
      return (Text.slice (stop - 1) stop all ++ ls, n + 1)
  | fuel + 1, '[' :: cs => do
    let rest := cs.drop 1
    let (ls, n) ← lettersOf fuel rest
    return (rest.take 2 ++ ls, n + 1)
  | fuel + 1, c :: cs => do
    let (ls, n) ← lettersOf fuel cs
    return (c :: ls, n + 1)

/-- The letters and the count of parameters that all have names. -/
def namedLetters (params : List Char) : Except Fault (List Char × Nat) := do
  let (letters, count) ← lettersOf params.length params
  if nameCount < count then .error nameless else return (letters, count)

/-- The name of the variable for a parameter. -/
def parameterName (i : Nat) : String := String.singleton (Char.ofNat ('a'.toNat + i))

/-- How many parameters have a name that is a character of a text. -/
def plainNameCount : Nat := 0xD800 - 'a'.toNat

/-- The names of parameters, unless one is half of a pair of code units. -/
def parameterNames (count : Nat) : Except Fault (List String) :=
  if plainNameCount < count then
    .error (.malformed ("'utf-8' codec can't encode character '\\ud800' in position 0: " ++
      "surrogates not allowed"))
  else .ok ((List.range count).map parameterName)

/-- The depth to which branches are explored for a corpus. -/
def exploreDepth : Nat := 50

/-- The corpus of a method: inputs that take its branches. -/
def ofMethod (oracle : Oracle) (lib : Library) (method : String) :
    Except Fault (List (List Datum)) := do
  let params ← Parameter.inside method
  let (letters, count) ← namedLetters params
  let generated : Except Fault (List (List Datum)) := do
    let id ← MethodId.decode method
    let names ← parameterNames count
    let branches ← Symbolic.analyse Term.text oracle lib id names exploreDepth
    generate oracle branches letters params
  match generated with
  | .ok inputs => .ok inputs
  | .error e =>
    if e.kind = .malformed then
      .error (.malformed
        s!"Corpus generation error: {e.message} occured when generating a new corpus")
    else .error e

end Assay.Corpus
