import Assay.Instr.Listing
import Assay.Machine.State
import Assay.Machine.Step
import Assay.Term.Operand

/-!
# Symbolic steps

A step on terms instead of numbers. It has a successor for each way to go on, with the conditions
under which that way is taken.
-/

namespace Assay

namespace Symbolic

/-- A value that is known, or a term. -/
inductive Content where
  | known (v : Value)
  | term (t : Term)
  deriving Inhabited

structure State where
  locals : Locals Content
  stack : Stack Content
  deriving Inhabited

/-- The state in which each parameter is a variable. -/
def State.ofNames (names : List String) : State :=
  ⟨.ofList (names.map fun x => .term (.var x)), []⟩

/-- A way to go on. -/
structure Successor where
  place : Place
  state : State
  conditions : List Term
  deriving Inhabited

/-- The term of a content. Only numbers and truth values have one. -/
def Content.toTerm : Content → Except Fault Term
  | term t => .ok t
  | known v =>
    match v.type with
    | .int | .boolean => Operand.numeral v.content
    | t => .error (.unsupported s!"Cannot convert {t.encode} to Z3")

def pop (s : State) : Except Fault (Content × State) := do
  let (c, stack) ← s.stack.pop
  return (c, { s with stack })

def push (c : Content) (s : State) : State := { s with stack := s.stack.push c }

/-- The only successor: the next instruction in a state. -/
def next (p : Place) (s : State) : List Successor := [⟨p.advance 1, s, []⟩]

def load (p : Place) (s : State) (i : Int) : Except Fault (List Successor) :=
  match s.locals.lookup i with
  | some c => .ok (next p (push c s))
  | none => .error (.failed s!"Local variable {i} not initialized")

def arithOp : Arith → Term.Op
  | .add => .add
  | .sub => .sub
  | .mul => .mul
  | .div => .div
  | .rem => .mod

/-- A division goes on only if the divisor is not zero. -/
def binary (p : Place) (s : State) (a : Arith) : Except Fault (List Successor) := do
  let (c2, s) ← pop s
  let (c1, s) ← pop s
  let t1 ← c1.toTerm
  let t2 ← c2.toTerm
  let conditions := if a.divides then [Term.bin .ne t2 (.int 0)] else []
  return [⟨p.advance 1, push (.term (.bin (arithOp a) t1 t2)) s, conditions⟩]

/-- The comparison of a condition, and the comparison that holds when it does not. -/
def comparison? : String → Option (Term.Op × Term.Op)
  | "eq" => some (.eq, .ne)
  | "ne" => some (.ne, .eq)
  | "lt" => some (.lt, .ge)
  | "le" => some (.le, .gt)
  | "gt" => some (.gt, .le)
  | "ge" => some (.ge, .lt)
  | _ => none

/-- Both ways of a conditional jump. -/
def branch (p : Place) (s : State) (target : Int) (taken passed : Term) : List Successor :=
  [⟨{ p with offset := target }, s, [taken]⟩, ⟨p.advance 1, s, [passed]⟩]

def compareZero (p : Place) (s : State) (condition : String) (target : Int) :
    Except Fault (List Successor) := do
  let (c, s) ← pop s
  let t ← c.toTerm
  match comparison? condition with
  | some (op, opposite) => return branch p s target (.bin op t (.int 0)) (.bin opposite t (.int 0))
  | none => .error (.unsupported s!"Ifz condition {condition}")

def compare (p : Place) (s : State) (condition : String) (target : Int) :
    Except Fault (List Successor) := do
  let (c2, s) ← pop s
  let (c1, s) ← pop s
  let t1 ← c1.toTerm
  let t2 ← c2.toTerm
  match comparison? condition with
  | some (op, opposite) => return branch p s target (.compare op t1 t2) (.compare opposite t1 t2)
  | none => .error (.unsupported s!"If condition {condition}")

def increment (p : Place) (s : State) (i : Int) (amount : Int) :
    Except Fault (List Successor) := do
  let t ← (← s.locals.get i).toTerm
  return next p { s with locals := s.locals.set i (.term (.bin .add t (.int amount))) }

/-- Replaces some values on top of the stack by an unknown number. -/
def unknownFor (p : Place) (s : State) (count : Nat) (name : String) :
    Except Fault (List Successor) := do
  let rec drop : Nat → State → Except Fault State
    | 0, s => .ok s
    | n + 1, s => do drop n (← pop s).2
  return next p (push (.term (.var name)) (← drop count s))

/-- Passes over some values on top of the stack. -/
def discard (p : Place) : Nat → State → Except Fault (List Successor)
  | 0, s => .ok (next p s)
  | n + 1, s => do discard p n (← pop s).2

/-- The name of a field without its dollar signs. -/
def plainName (name : Label) : Except Fault String :=
  match Label.text? name with
  | some s => .ok (String.ofList (s.toList.filter (· ≠ '$')))
  | none => .error (.noMember s!"'{Json.shape name}' object has no attribute 'replace'")

/-- The test whether assertions are off is passed over with the jump behind it. -/
def getStatic (p : Place) (s : State) (f : FieldRef) : Except Fault (List Successor) := do
  let name ← plainName f.name
  if name = "assertionsDisabled" then return [⟨p.advance 2, s, []⟩]
  unknownFor p s 0 s!"field_{name}"

/-- The successors of an instruction. Calls are passed over. -/
def exec (p : Place) (s : State) (i : Instr) : Except Fault (List Successor) :=
  match i.op with
  | .push v => .ok (next p (push (.known v) s))
  | .load .int n => load p s n.val
  | .load .reference n => load p s n.val
  | .binary .int a => binary p s a
  | .compareZero c t => compareZero p s c t.val
  | .compare c t => compare p s c t.val
  | .ret _ => .ok []
  | .dup w => do
    if w.val = 1 then return next p (push (← s.stack.peek) s) else return next p s
  | .store _ n => do
    let (c, s) ← pop s
    return next p { s with locals := s.locals.set n.val c }
  | .incr n a => increment p s n.val a.val
  | .goto t => .ok [⟨{ p with offset := t.val }, s, []⟩]
  | .get true f => getStatic p s f
  | .get false f => unknownFor p s 1 s!"field_{Label.shown f.name}"
  | .put false _ => discard p 2 s
  | .newArray _ d =>
    if d.val = 1 then unknownFor p s 1 s!"array_ref_{p.offset}"
    else if d.val = 2 then unknownFor p s 2 s!"matrix_ref_{p.offset}"
    else .ok (next p s)
  | .arrayStore _ => discard p 3 s
  | .arrayLoad _ => unknownFor p s 2 s!"array_elem_{p.offset}"
  | .arrayLength => unknownFor p s 1 s!"array_length_{p.offset}"
  | .new owner => do unknownFor p s 0 s!"obj_ref_{← Machine.lastPart owner}_{p.offset}"
  | .cast .. => do
    let (c, s) ← pop s
    return next p (push c s)
  | _ => .ok (next p s)

/-- The successors of a state at a place. -/
def step (lib : Library) (p : Place) (s : State) : Except Fault (List Successor) := do
  let i ← Machine.fetch lib p
  let _ ← i.line
  exec p s i

end Symbolic

end Assay
