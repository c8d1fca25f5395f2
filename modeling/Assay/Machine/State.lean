import Assay.Machine.Heap
import Assay.MethodId

/-!
# States of the machine

A frame runs one method: its local variables, its operand stack and its place in the code. A state
is a heap with the frame that runs and the frames that wait for it.
-/

namespace Assay

/-- A stack, its top first. -/
abbrev Stack (α : Type) := List α

namespace Stack

variable {α : Type}

def push (x : α) (s : Stack α) : Stack α := x :: s

def pop : Stack α → Except Fault (α × Stack α)
  | [] => .error (.outOfRange "pop from empty list")
  | x :: s => .ok (x, s)

def peek : Stack α → Except Fault α
  | [] => .error (.outOfRange "list index out of range")
  | x :: _ => .ok x

/-- The elements from the bottom to the top. -/
def text (shown : α → String) (s : Stack α) : String :=
  if s.isEmpty then "ϵ" else String.join (s.reverse.map shown)

end Stack

/-- A place in the code of a method. -/
structure Place where
  method : MethodId
  offset : Int
  deriving DecidableEq, Inhabited

namespace Place

def advance (p : Place) (n : Int) : Place := { p with offset := p.offset + n }

def text (p : Place) : String := s!"{p.method.encode}:{p.offset}"

end Place

/-- Local variables, in order of their first assignment. -/
abbrev Locals (α : Type) := List (Int × α)

namespace Locals

variable {α : Type}

def get (i : Int) (ls : Locals α) : Except Fault α :=
  match ls.lookup i with
  | some v => .ok v
  | none => .error ⟨.missingKey, toString i⟩

def set (i : Int) (v : α) : Locals α → Locals α
  | [] => [(i, v)]
  | (j, w) :: ls => if j = i then (j, v) :: ls else (j, w) :: set i v ls

/-- Variables 0, 1, … with these values. -/
def ofList (vs : List α) : Locals α :=
  (List.range vs.length).zip vs |>.map fun (i, v) => (Int.ofNat i, v)

end Locals

/-- One running method. -/
structure Frame where
  locals : Locals Value
  stack : Stack Value
  place : Place
  deriving Inhabited

namespace Frame

/-- The start of a method. -/
def enter (method : MethodId) (locals : Locals Value) : Frame := ⟨locals, [], ⟨method, 0⟩⟩

def push (v : Value) (f : Frame) : Frame := { f with stack := f.stack.push v }

def pop (f : Frame) : Except Fault (Value × Frame) := do
  let (v, s) ← f.stack.pop
  return (v, { f with stack := s })

/-- Pops a number of values and gives them in the order in which they were pushed. -/
def popMany (n : Nat) (f : Frame) : Except Fault (List Value × Frame) :=
  match n with
  | 0 => .ok ([], f)
  | n + 1 => do
    let (v, f) ← f.pop
    let (vs, f) ← popMany n f
    return (vs ++ [v], f)

def advance (f : Frame) : Frame := { f with place := f.place.advance 1 }

def jump (target : Int) (f : Frame) : Frame := { f with place.offset := target }

def text (f : Frame) : String :=
  let locals := f.locals.map fun (i, v) => s!"{i}:{v.math}"
  "<\x7b" ++ ", ".intercalate locals ++ "\x7d, " ++ f.stack.text Value.math ++ ", " ++
    f.place.text ++ ">"

end Frame

structure State where
  heap : Heap
  frame : Frame
  /-- The frames that wait, the caller of the running one first. -/
  callers : List Frame
  deriving Inhabited

namespace State

/-- The number of frames. -/
def height (s : State) : Nat := s.callers.length + 1

/-- Nothing in the heap or in the running frame is too long to be written. -/
def isWritable (s : State) : Bool :=
  s.frame.stack.all (fun v => v.content.isWritable) &&
    s.heap.entries.all (fun e => e.2.content.isWritable) &&
    s.frame.locals.all fun e => e.2.content.isWritable

end State

/-- The end of a run: what happened, and at which offset. -/
structure Ending where
  message : String
  depth : Int
  deriving DecidableEq, Inhabited

/-- What a step leads to. -/
inductive Outcome where
  | running (s : State)
  | ended (e : Ending)
  /-- The machine has lost its state and can only say why. -/
  | lost (reason : String)
  deriving Inhabited

end Assay
