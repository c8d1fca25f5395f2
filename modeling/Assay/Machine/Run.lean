import Assay.Case
import Assay.Machine.Step

/-!
# Runs

The state in which a case starts, and how a run ends. The objects among the inputs are made first,
each by a run of its constructor.
-/

namespace Assay

namespace Machine

/-- The step that follows a lost state. -/
def lostState : Fault := .noMember "'str' object has no attribute 'frames'"

/-- Runs a constructor until the stack of frames is lower than `height`, or at most `fuel` steps,
and gives the heap. -/
def construct (lib : Library) (assertionsOff : Bool) (height : Nat) :
    Nat → State → Except Fault Heap
  | 0, s => .ok s.heap
  | fuel + 1, s => do
    match ← step lib assertionsOff s with
    | .running t =>
      if t.height < height then return t.heap else construct lib assertionsOff height fuel t
    | .ended _ => return s.heap
    | .lost _ => .error lostState

/-- The most steps that a constructor makes. -/
def constructorSteps : Nat := 100000

/-- The texts in parentheses that hold no parentheses; the second argument counts the characters
that belong to the last one found. -/
def groups : List Char → Nat → List (List Char)
  | [], _ => []
  | _ :: cs, skip + 1 => groups cs skip
  | c :: cs, 0 =>
    let inner := cs.takeWhile fun x => x ≠ '(' ∧ x ≠ ')'
    if c = '(' ∧ inner ≠ [] ∧ (cs.drop inner.length).head? = some ')' then
      inner :: groups cs (inner.length + 1)
    else groups cs 0

/-- The arguments of the constructor for the input at this index. -/
def constructorArgs (text : String) (index : Nat) : Except Fault (List Value) :=
  let found := groups text.toList 0
  match found[index]? with
  | none =>
    .error (.violated
      s!"Not enough matches. Expected at least {index + 1}, found {found.length}")
  | some args =>
    (Text.cutAt ',' args).mapM fun a => Value.Argument.read false (Text.trim (String.ofList a))

/-- The preparation of a start: the heap, the frame and the objects made so far. -/
structure Setup where
  heap : Heap
  frame : Frame
  objects : List Value

/-- The number of a new object, and the state in which its constructor starts, in a frame above the
one prepared. -/
def enterConstructor (lib : Library) (text : String) (index : Nat) (owner : ClassName) (p : Setup) :
    Except Fault (Value × State) := do
  let owner : ClassName := ⟨owner.slashed⟩
  let object ← lib.newObject owner
  let (ref, heap) := p.heap.alloc object
  let args ← constructorArgs text index
  let types := String.join (args.map fun a => a.type.encode)
  let constructor ← MethodId.decode s!"{owner.text}.<init>:({types})V"
  let receiver := Value.ofInt ref
  let frame := args.foldl (fun f v => f.push v) ((p.frame.push receiver).push receiver)
  let frame := { frame with locals := frame.locals.set index receiver }
  match ← invokeSpecial ⟨heap, frame, []⟩ constructor.ref with
  | .running s => return (receiver, s)
  | _ => .error lostState

/-- The preparation after a constructor has left this heap: the method starts over with the objects
made so far. -/
def Setup.withObject (method : MethodId) (object : Value) (heap : Heap) (p : Setup) : Setup :=
  let objects := p.objects ++ [object]
  ⟨heap, .enter method (.ofList objects), objects⟩

/-- Makes an object by running its constructor. -/
def addObject (lib : Library) (assertionsOff : Bool) (method : MethodId) (text : String)
    (index : Nat) (owner : ClassName) (p : Setup) : Except Fault Setup := do
  let (object, s) ← enterConstructor lib text index owner p
  let heap ← construct lib assertionsOff s.height constructorSteps s
  return p.withObject method object heap

/-- Sets the local variable of an input that is not an object. An array goes to the heap. -/
def addPlain (index : Nat) (v : Value) (p : Setup) : Except Fault Setup := do
  let v ← Value.wrap v.content
  match v.type with
  | .array _ =>
    let ref : Int := p.heap.entries.length
    return { p with
      heap := p.heap.put ref v
      frame := { p.frame with locals := p.frame.locals.set index (.ofInt ref) } }
  | _ => return { p with frame := { p.frame with locals := p.frame.locals.set index v } }

def addInput (lib : Library) (assertionsOff : Bool) (method : MethodId) (text : String)
    (index : Nat) (v : Value) (p : Setup) : Except Fault Setup :=
  match v.type with
  | .object owner => addObject lib assertionsOff method text index owner p
  | _ => addPlain index v p

def addInputs (lib : Library) (assertionsOff : Bool) (method : MethodId) (text : String) :
    Nat → Input → Setup → Except Fault Setup
  | _, [], p => .ok p
  | index, v :: vs, p => do
    addInputs lib assertionsOff method text (index + 1) vs
      (← addInput lib assertionsOff method text index v p)

/-- The state in which a method starts on an input, which is also given as a text. The state is
written to the log. -/
def start (lib : Library) (assertionsOff : Bool) (method : MethodId) (input : Input)
    (text : String) : Except Fault State := do
  let p ← addInputs lib assertionsOff method text 0 input ⟨.empty, .enter method [], []⟩
  let s : State := ⟨p.heap, p.frame, []⟩
  if s.isWritable then return s else .error Text.tooLong

/-- The ending of a run that meets a fault. -/
def genericError : Ending := ⟨"generic error", 0⟩

/-- Runs for at most `fuel` steps. -/
def run (lib : Library) (assertionsOff : Bool) : Nat → Outcome → Except Fault Ending
  | _, .ended e => .ok e
  | 0, .running s => .ok ⟨"timeout", s.frame.place.offset⟩
  | 0, .lost _ => .error lostState
  | _ + 1, .lost _ => .ok genericError
  | fuel + 1, .running s =>
    match step lib assertionsOff s with
    | .ok o => run lib assertionsOff fuel o
    | .error _ => .ok genericError

/-- The most steps of a run. -/
def runSteps : Nat := 10000

/-- How a method ends on an input. A text that is not a method or an input is its own ending. -/
def interpret (lib : Library) (method input : String) (assertionsOff : Bool) :
    Except Fault Ending :=
  let parsed : Except Fault (MethodId × Input) := do
    let id ← MethodId.decode method
    return (id, ← Input.decode input)
  match parsed with
  | .error e => if e.kind = .malformed then .ok ⟨e.message, 0⟩ else .error e
  | .ok (id, values) =>
    match start lib assertionsOff id values input with
    | .ok s => run lib assertionsOff runSteps (.running s)
    | .error _ => .ok genericError

end Machine

end Assay
