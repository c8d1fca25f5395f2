import Assay.Fuzz.Mutate
import Assay.Machine.Run

/-!
# Fuzzing

A fuzzer keeps one input for each depth at which a run has ended, and mutates these. A run that
fails at a new depth, and fails there also with assertions enabled, is a crash that no assertion
guards: for each of its arguments the fuzzer then searches a change that lets the run end well.
The machine that runs an input is a parameter.
-/

namespace Assay.Fuzz

/-- Runs an input text, with assertions disabled or not. -/
abbrev Runner := String → Bool → Except Fault Ending

/-- An argument of a crashing input, and whether changing it alone prevents the crash. -/
structure Suspect where
  value : Datum
  faulty : Bool
  isObject : Bool
  deriving Inhabited

structure Fuzzer where
  params : List Parameter
  /-- Inputs by depth, in order of discovery. -/
  corpus : List (Int × Argument)
  /-- How many mutations are tried. -/
  rounds : Nat
  crashes : List (List Suspect)
  /-- Failing inputs by message. -/
  failures : List (String × Argument)
  /-- What was printed, line by line. -/
  printed : List String
  source : Source
  /-- The inputs that were to be run, the last one first, with their texts. -/
  tried : List (Argument × Except Fault String) := []
  deriving Inhabited

/-- A computation of a fuzzer. What it did before a fault stays done. -/
abbrev Session (α : Type) := ExceptT Fault (StateM Fuzzer) α

namespace Session

def draw {α : Type} (d : Draw α) : Session α := ExceptT.mk fun f =>
  let (r, source) := d.run.run f.source
  (r, { f with source := source })

def print (line : String) : Session Unit :=
  modify fun f => { f with printed := f.printed ++ [line] }

end Session

/-- Puts an entry under a key; a new key comes last. -/
def insertAt {κ α : Type} [BEq κ] (key : κ) (a : α) : List (κ × α) → List (κ × α)
  | [] => [(key, a)]
  | (k, b) :: rest => if k == key then (k, a) :: rest else (k, b) :: insertAt key a rest

theorem lookup_insertAt {κ α : Type} [BEq κ] [LawfulBEq κ] (key : κ) (a : α)
    (entries : List (κ × α)) (d : κ) :
    (insertAt key a entries).lookup d = if d == key then some a else entries.lookup d := by
  induction entries with
  | nil => cases h : d == key <;> simp [insertAt, List.lookup_cons, h]
  | cons e entries ih =>
    obtain ⟨k, b⟩ := e
    cases hk : k == key with
    | true =>
      obtain rfl := eq_of_beq hk
      cases h : d == k <;> simp [insertAt, List.lookup_cons, h]
    | false =>
      cases h : d == k with
      | true =>
        obtain rfl := eq_of_beq h
        simp [insertAt, hk]
      | false => simp [insertAt, List.lookup_cons, hk, h, ih]

/-- A mutated copy of an entry of the corpus. -/
def mutant : Session Argument := do
  match (← get).corpus with
  | [] => throw ⟨.divisionByZero, "integer modulo by zero"⟩
  | (_, a) :: rest => do
    let seed ← Session.draw (Draw.oneOf a (rest.map Prod.snd))
    Session.draw (mutate seed)

/-- Runs an input, if it has a text. -/
def execute (run : Runner) (input : Argument) (assertionsOff : Bool) : Session Ending := do
  let text := inputText input.toDatum
  modify fun f => { f with tried := (input, text) :: f.tried }
  liftM (run (← liftM text) assertionsOff)

/-- Runs that end this way tell nothing about depth. -/
def inconclusive (message : String) : Bool := message = "assertion error" || message = "timeout"

/-- The member of an input at an index. -/
def memberAt (input : Argument) (i : Nat) : Except Fault Argument :=
  match input with
  | .list _ items =>
    match items[i]? with
    | some a => .ok a
    | none => .error (.outOfRange "list index out of range")
  | .plain (.str s) =>
    match s.toList[i]? with
    | some c => .ok (.plain (.str (String.singleton c)))
    | none => .error (.outOfRange "string index out of range")
  | .plain (.record _) => .error ⟨.missingKey, toString i⟩
  | _ => .error (.wrongShape "object is not subscriptable")

/-- The input with another member at an index. -/
def replaceAt (input : Argument) (i : Nat) (a : Argument) : Except Fault Argument :=
  match input with
  | .list m items => .ok (.list m (items.set i a))
  | _ => .error (.wrongShape "object does not support item assignment")

/-- Searches a change of one argument after which a run gets at least as deep as `minDepth`. -/
def searchChange (run : Runner) (input : Argument) (i : Nat) (minDepth : Int) :
    Nat → Session (Option Ending)
  | 0 => return none
  | n + 1 => do
    let mutated ← liftM (memberAt (← mutant) i)
    if mutated.toDatum == (← liftM (memberAt input i)).toDatum then
      searchChange run input i minDepth n
    else
      let out ← execute run (← liftM (replaceAt input i mutated)) false
      if minDepth ≤ out.depth ∧ !inconclusive out.message then return some out
      else searchChange run input i minDepth n

/-- What is reported of an argument: itself, or the first member of a list after its type. -/
def reported : Argument → Except Fault (Datum × Bool)
  | .list _ items =>
    match items[1]? with
    | some a => .ok (a.toDatum, true)
    | none => .error (.outOfRange "list index out of range")
  | a => .ok (a.toDatum, false)

/-- Examines the arguments from index `i` on. -/
def suspectsFrom (run : Runner) (input : Argument) (minDepth : Int) (i : Nat) :
    Nat → Session (List Suspect)
  | 0 => return []
  | n + 1 => do
    let found ← searchChange run input i minDepth (← get).rounds
    let faulty := match found with
      | some out => out.message == "ok"
      | none => false
    let (value, isObject) ← liftM (do reported (← memberAt input i))
    return ⟨value, faulty, isObject⟩ :: (← suspectsFrom run input minDepth (i + 1) n)

/-- How many members an input has. -/
def memberCount (input : Argument) : Except Fault Nat := typeLength input.toDatum

/-- The arguments of a crashing input, with the faulty ones marked. -/
def suspects (run : Runner) (input : Argument) (minDepth : Int) : Session (List Suspect) := do
  suspectsFrom run input minDepth 0 (← liftM (memberCount input))

/-- With assertions enabled the run ends at the same depth. -/
def unprotected (run : Runner) (input : Argument) (depth : Int) : Session Bool := do
  return (← execute run input false).depth == depth

def remember (depth : Int) (input : Argument) : Session Unit :=
  modify fun f => { f with corpus := insertAt depth input f.corpus }

/-- An input that ended at a new depth is kept, and reported if it is an unprotected crash. -/
def discover (run : Runner) (input : Argument) (out : Ending) (minDepth : Int) :
    Session Unit := do
  remember out.depth input
  if out.message = "ok" ∨ inconclusive out.message ∨ out.depth < minDepth then return
  if ← unprotected run input out.depth then
    Session.print out.message
    let found ← suspects run input minDepth
    modify fun f => { f with crashes := f.crashes ++ [found] }

/-- The first input takes fewer bytes than the second. -/
def smaller (a b : Argument) : Except Fault Bool := do
  let m ← size a.toDatum
  return m < (← size b.toDatum)

/-- One mutation: true if enough crashes were found. -/
def fuzzOnce (run : Runner) (minDepth maxErrors : Int) (assertionsOff : Bool) : Session Bool := do
  let candidate ← mutant
  let out ← execute run candidate assertionsOff
  if inconclusive out.message then return false
  match (← get).corpus.lookup out.depth with
  | none =>
    discover run candidate out minDepth
    return maxErrors ≤ (← get).crashes.length
  | some entry =>
    if ← liftM (smaller candidate entry) then remember out.depth candidate
    return false

def fuzzFor (run : Runner) (minDepth maxErrors : Int) (assertionsOff : Bool) : Nat → Session Unit
  | 0 => return
  | n + 1 => do
    if ← fuzzOnce run minDepth maxErrors assertionsOff then return
    else fuzzFor run minDepth maxErrors assertionsOff n

/-- Mutates inputs of the corpus, for at most as many rounds as the fuzzer has. -/
def fuzz (run : Runner) (minDepth maxErrors : Int) (assertionsOff : Bool) : Session Unit := do
  fuzzFor run minDepth maxErrors assertionsOff (← get).rounds

/-- The input `[10, 12]` is announced whenever it is tried. -/
def announced : Datum := .list [.int 10, .int 12]

/-- One mutation, with a report of what it found. -/
def reportOnce (run : Runner) : Session Unit := do
  let input ← mutant
  let d := input.toDatum
  if d == announced then Session.print d.full
  let out ← execute run input true
  match (← get).corpus.lookup out.depth with
  | none =>
    Session.print s!"New input: {d.text} with depth: {out.depth}"
    Session.print s!"{d.text} -> {out.message}"
    remember out.depth input
    if out.message ≠ "ok" then
      modify fun f => { f with failures := insertAt out.message input f.failures }
  | some entry =>
    if ← liftM (smaller input entry) then
      Session.print s!"Smaller input: {d.text} for depth {out.depth} --> {out.message}"
      remember out.depth input

def reportFor (run : Runner) : Nat → Session Unit
  | 0 => return
  | n + 1 => do
    reportOnce run
    reportFor run n

/-- Random inputs cannot be run without coverage: the method to run is not known there. -/
def reportRandom : Nat → Session Unit
  | 0 => return
  | _ + 1 => do
    let _ ← Session.draw (randomInput (← get).params)
    throw ⟨.unbound, "name 'method_id' is not defined"⟩

/-- Mutates inputs and prints what is found on the way. -/
def report (run : Runner) (coverage : Bool) : Session Unit := do
  let rounds := (← get).rounds
  if coverage then reportFor run rounds else reportRandom rounds
  let failures := (← get).failures.map fun (m, a) => (m, a.toDatum)
  Session.print (Datum.record failures).full

/-- The inputs that a corpus generator gives, under the keys -1, -2, … -/
def numbered (inputs : List (List Datum)) : List (Int × Datum) :=
  inputs.zipIdx.map fun (input, i) => (-(i : Int) - 1, Datum.list input)

/-- The text of a corpus. -/
def corpusText (corpus : List (Int × Datum)) : String :=
  "\x7b" ++ ", ".intercalate (corpus.map fun (k, d) => s!"{k}: {d.full}") ++ "\x7d"

/-- A corpus of one input: a given one, or a random one. -/
def seedCorpus (params : List Parameter) : Option Datum → Draw (List (Int × Datum))
  | some d => pure [(0, d)]
  | none => do return [(0, .list (← randomInput params))]

/-- What goes wrong with a method that cannot be fuzzed. -/
def notBuilt (f : Fault) : List String × Fault :=
  if f.kind = .malformed ∨ f.kind = .malformedJson then
    (["Fuzzer error: " ++ f.message], .wrongShape "__init__() should return None, not 'ValueError'")
  else ([], f)

/-- A fuzzer for a method. `generated` is the result of generating a corpus from the branches of the
method, if that is wanted. What is printed stays printed if building fails. -/
def build (method : String) (given : Option Datum)
    (generated : Option (Except Fault (List (List Datum)))) (rounds : Nat) (source : Source) :
    List String × Except Fault Fuzzer :=
  let failed (lines : List String) (f : Fault) : List String × Except Fault Fuzzer :=
    let (more, f) := notBuilt f
    (lines ++ more, .error f)
  let finish (lines : List String) (params : List Parameter) (d : Draw (List (Int × Datum))) :=
    match d.run.run source with
    | (.ok corpus, source) => (lines, .ok
        { params, corpus := corpus.map fun (k, d) => (k, Argument.ofDatum d), rounds,
          crashes := [], failures := [], printed := lines, source })
    | (.error f, _) => failed lines f
  match Parameter.ofMethod method with
  | .error f => failed [] f
  | .ok params =>
    match generated with
    | none => finish [] params (seedCorpus params given)
    | some (.error f) => failed [] f
    | some (.ok inputs) =>
      let corpus := numbered inputs
      let line := s!"method: {method}, generated_corpus: {corpusText corpus}"
      finish [line] params (if corpus.isEmpty then seedCorpus params given else pure corpus)

end Assay.Fuzz
