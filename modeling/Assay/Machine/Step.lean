import Assay.Instr.Listing
import Assay.Machine.Fields
import Assay.Machine.State

/-!
# Steps of the machine

One instruction of the running frame. Numbers are unbounded; a quotient is rounded down.
-/

namespace Assay

namespace Arith

/-- The result of an operation; there is none for a division by zero. -/
def eval : Arith → Int → Int → Option Int
  | add, a, b => some (a + b)
  | sub, a, b => some (a - b)
  | mul, a, b => some (a * b)
  | div, a, b => if b = 0 then none else some (a.fdiv b)
  | rem, a, b => if b = 0 then none else some (a - a.fdiv b * b)

/-- The operation divides. -/
def divides : Arith → Bool
  | div | rem => true
  | _ => false

end Arith

namespace Machine

def require (holds : Bool) (expectation : String) : Except Fault Unit :=
  if holds then .ok () else .error (.violated expectation)

def unknown {α : Type} (i : Instr) : Except Fault α :=
  .error (.unsupported s!"Don't know how to handle: {i.full}")

/-- A number that an operation needs. -/
def number (d : Datum) : Except Fault Int :=
  match d.asInt? with
  | some n => .ok n
  | none => .error (.wrongShape s!"'{d.shape}' object cannot be interpreted as an integer")

/-- The elements of an array. -/
def elements (d : Datum) : Except Fault (List Datum) :=
  match d.elements? with
  | some xs => .ok xs
  | none => .error (.wrongShape s!"'{d.shape}' object is not iterable")

/-- Goes on with a changed running frame. -/
def go (s : State) (f : Frame) : Outcome := .running { s with frame := f }

def stop (s : State) (message : String) : Outcome := .ended ⟨message, s.frame.place.offset⟩

def isInt (v : Value) : Bool := v.type = .int

def binary (s : State) (a : Arith) : Except Fault Outcome := do
  let (v2, f) ← s.frame.pop
  let (v1, f) ← f.pop
  require (isInt v1) s!"expected int, but got {v1.math}"
  require (isInt v2) s!"expected int, but got {v2.math}"
  if a.divides && v2.content.asInt? == some 0 then return stop s "divide by zero"
  match a.eval (← number v1.content) (← number v2.content) with
  | some n => return go s (f.push (.ofInt n)).advance
  | none => return stop s "divide by zero"

/-- The comparison that a condition asks for. -/
def holds (condition : String) (a b : Datum) : Except Fault Bool :=
  match condition with
  | "ne" => .ok (a != b)
  | "eq" => .ok (a == b)
  | "ge" => Datum.rel .ge a b
  | "gt" => Datum.rel .gt a b
  | "lt" => Datum.rel .lt a b
  | "le" => Datum.rel .le a b
  | c => .error (.unsupported s!"Unknown condition: {Text.quote c}")

/-- Jumps if the condition holds, and goes on with the next instruction if not. -/
def branch (s : State) (f : Frame) (condition : String) (target : Int) (a b : Datum) :
    Except Fault Outcome := do
  return go s (if ← holds condition a b then f.jump target else f.advance)

def compare (s : State) (condition : String) (target : Int) : Except Fault Outcome := do
  let (v2, f) ← s.frame.pop
  let (v1, f) ← f.pop
  branch s f condition target v1.content v2.content

/-- A truth value is compared as 1 or 0. -/
def compareZero (s : State) (condition : String) (target : Int) : Except Fault Outcome := do
  let (v, f) ← s.frame.pop
  let d := if v.type = .boolean then .int (if v.content.truthy then 1 else 0) else v.content
  branch s f condition target d (.int 0)

def load (s : State) (i : Int) : Except Fault Outcome := do
  return go s (s.frame.push (← s.frame.locals.get i)).advance

def store (s : State) (i : Int) : Except Fault Outcome := do
  let (v, f) ← s.frame.pop
  return go s { f with locals := f.locals.set i v }.advance

def increment (s : State) (i amount : Int) : Except Fault Outcome := do
  let v ← s.frame.locals.get i
  require (isInt v) "Incr type mismatch"
  let n ← number v.content
  return go s { s.frame with locals := s.frame.locals.set i (.ofInt (n + amount)) }.advance

/-- The field by which a class knows that its assertions are off. -/
def assertionField : String := "$assertionsDisabled"

/-- Fields of classes belong to the class of the running method. -/
def getStatic (lib : Library) (assertionsOff : Bool) (s : State) (field : FieldRef) :
    Except Fault Outcome := do
  let v ←
    if assertionsOff && field.name == .str assertionField then pure (Value.ofBool true)
    else (← lib.find s.frame.place.method.owner).staticField field.name
  return go s (s.frame.push v).advance

/-- The field of an object. -/
def fieldOf (name : Label) : Datum → Except Fault Datum
  | .record es =>
    match es.lookup (Label.shown name) with
    | some d => .ok d
    | none => .error ⟨.missingKey, Label.quoted name⟩
  | d => .error (.wrongShape s!"'{d.shape}' object has no fields")

def getField (s : State) (field : FieldRef) : Except Fault Outcome := do
  let (r, f) ← s.frame.pop
  if r.content matches .null then return stop s "NullPointerException"
  match ← s.heap.find r.content with
  | none => .error (.failed s!"Invalid object reference {r.math}")
  | some o =>
    match ← fieldOf field.name o.content with
    | .value t d => return go s (f.push ⟨t, d⟩).advance
    | d => return go s (f.push ⟨.reference, d⟩).advance

def putField (s : State) (field : FieldRef) : Except Fault Outcome := do
  let (v, f) ← s.frame.pop
  let (r, f) ← f.pop
  if r.content matches .null then return .lost "null pointer"
  let (ref, o) ← s.heap.fetch r.content
  match o.content with
  | .record es =>
    let entries := ClassFile.setEntry (Label.shown field.name) v.toDatum es
    let o := { o with content := .record entries }
    return .running { s with heap := s.heap.put ref o, frame := f.advance }
  | _ => return go s f.advance

/-- Runs a method in a frame of its own; the caller stays where it is until the return. -/
def call (s : State) (caller : Frame) (m : MethodRef) (args : List Value) : Except Fault Outcome :=
  match m.target? with
  | some id => .ok (.running ⟨s.heap, .enter id (.ofList args), caller :: s.callers⟩)
  | none => .error (.noMember "no such method")

/-- The first argument of a static call is the value on top of the stack. -/
def invokeStatic (s : State) (m : MethodRef) : Except Fault Outcome := do
  let (args, f) ← s.frame.popMany m.params.length
  call s f m args.reverse

/-- A call on an object passes the object first. -/
def invokeOn (s : State) (m : MethodRef) : Except Fault Outcome := do
  let (args, f) ← s.frame.popMany (m.params.length + 1)
  call s f m args

/-- The last part of a class name that stands in an instruction. -/
def lastPart (owner : Label) : Except Fault String :=
  match Label.text? owner with
  | some s => .ok (ClassName.mk s).name
  | none => .error (.noMember s!"'{Json.shape owner}' object has no attribute 'split'")

/-- The constructor that does nothing. -/
def isRootConstructor (m : MethodRef) : Except Fault Bool := do
  return (← lastPart m.owner) = "java/lang/Object" && m.name == .str "<init>"

def invokeSpecial (s : State) (m : MethodRef) : Except Fault Outcome := do
  if ← isRootConstructor m then return go s s.frame.advance else invokeOn s m

/-- Ends the running frame. A typed return takes the value on top to the caller. -/
def ret (s : State) (type : Option Ty) : Except Fault Outcome :=
  match s.callers with
  | [] => .ok (stop s "ok")
  | caller :: callers =>
    match type with
    | some _ => do
      let (v, _) ← s.frame.pop
      return .running ⟨s.heap, (caller.push v).advance, callers⟩
    | none => .ok (.running ⟨s.heap, caller.advance, callers⟩)

/-- Adds a value to the heap and pushes its number. -/
def allocate (s : State) (f : Frame) (v : Value) : Outcome :=
  let (ref, heap) := s.heap.alloc v
  .running { s with heap, frame := (f.push (.ofInt ref)).advance }

def new (lib : Library) (s : State) (owner : Label) : Except Fault Outcome := do
  if (← lastPart owner) = "java/lang/AssertionError" then return stop s "assertion error"
  let v ← lib.newObject ⟨Label.shown owner⟩
  return allocate s s.frame v

/-- A row of zeros; a negative size gives an empty one. -/
def zeros (n : Int) : List Datum := List.replicate n.toNat (.int 0)

def newArray (s : State) (type : Ty) : Except Fault Outcome := do
  require (type = .int) s!"NewArray {type.encode} not handled"
  let (size, f) ← s.frame.pop
  require (isInt size) "Size must be of type Int"
  return allocate s f (.ofArray type (zeros (← number size.content)))

/-- Puts rows into the heap, from a number on. -/
def putRows (row : Value) : Nat → Int → Heap → Heap
  | 0, _, h => h
  | n + 1, ref, h => putRows row n (ref + 1) (h.put ref row)

/-- Puts an array of arrays into the heap: the rows get the numbers after that of the outer array,
which is put last. -/
def putMatrix (type : Ty) (rows : Nat) (columns : Int) (h : Heap) : Heap :=
  let refs := (List.range rows).map fun (i : Nat) => Datum.int (h.next + 1 + i)
  (putRows (.ofArray type (zeros columns)) rows (h.next + 1) h).put h.next
    (.ofArray (.array type) refs)

def newMatrix (s : State) (type : Ty) : Except Fault Outcome := do
  let (d2, f) ← s.frame.pop
  let (d1, f) ← f.pop
  require (isInt d1) s!"Dimension 1 size must be Int, got {d1.type.encode}"
  require (isInt d2) s!"Dimension 2 size must be Int, got {d2.type.encode}"
  let rows ← number d1.content
  if rows < 0 then return stop s "negative array size"
  let columns ← number d2.content
  if columns < 0 then return stop s "negative array size"
  let heap := putMatrix type rows.toNat columns s.heap
  return .running { s with heap, frame := (f.push (.ofInt s.heap.next)).advance }

/-- The value can be an element of an array of this type; elements that are not simple are
numbers of heap entries. -/
def checkElement (type : Ty) (v : Value) : Except Fault Unit :=
  match type with
  | .int | .char | .boolean =>
    require (v.type = type) s!"Value type mismatch {v.type.encode} (expected {type.encode})"
  | _ => require (isInt v) s!"Expected reference (int) value, got {v.type.encode}"

def arrayStore (s : State) (type : Ty) : Except Fault Outcome := do
  let (v, f) ← s.frame.pop
  let (index, f) ← f.pop
  let (r, f) ← f.pop
  if r.content matches .null then return stop s "null pointer"
  require (isInt r) s!"Array ref type mismatch {r.full}"
  require (isInt index) s!"Index type mismatch {index.type.encode}"
  let i ← number index.content
  if i < 0 then return stop s "negative array size"
  let (ref, old) ← s.heap.fetch r.content
  let xs ← elements old.content
  if xs.length ≤ i then return stop s "out of bounds"
  checkElement type v
  let heap := s.heap.put ref (.ofArray type (xs.set i.toNat v.content))
  return .running { s with heap, frame := f.advance }

/-- The number of a character. -/
def codePoint (d : Datum) : Except Fault Int :=
  match d with
  | .str s =>
    match s.toList with
    | [c] => .ok c.toNat
    | _ => .error (.wrongShape "ord() expected a character")
  | d => .error (.wrongShape s!"ord() expected string of length 1, but {d.shape} found")

/-- What the load of an element pushes. -/
def loaded (type : Ty) (d : Datum) : Except Fault Value :=
  match type with
  | .int | .reference => .ok ⟨.int, d⟩
  | .char => do return .ofInt (← codePoint d)
  | t => .error (.unsupported s!"Unknown array type: {t.encode}")

/-- The element at an index, which counts from the end if it is negative. -/
def elementAt {α : Type} (xs : List α) (i : Int) : Except Fault α :=
  let i := if i < 0 then i + xs.length else i
  match if i < 0 then none else xs[i.toNat]? with
  | some x => .ok x
  | none => .error (.outOfRange "list index out of range")

def arrayLoad (s : State) (type : Ty) : Except Fault Outcome := do
  let (index, f) ← s.frame.pop
  let (r, f) ← f.pop
  require (isInt r) s!"Array ref type mismatch {r.full}"
  require (isInt index) s!"Index type mismatch {index.type.encode}"
  let (_, array) ← s.heap.fetch r.content
  let xs ← elements array.content
  let i ← number index.content
  if xs.length ≤ i then return stop s "out of bounds"
  let d ← elementAt xs i
  return go s (f.push (← loaded type d)).advance

def arrayLength (s : State) : Except Fault Outcome := do
  let (r, f) ← s.frame.pop
  if r.content matches .null then return stop s "null pointer"
  let (_, array) ← s.heap.fetch r.content
  let xs ← elements array.content
  return go s (f.push (.ofInt xs.length)).advance

def cast (s : State) (source target : Ty) : Except Fault Outcome :=
  match source, target with
  | .int, .short => do
    let (v, f) ← s.frame.pop
    return go s (f.push ⟨.short, v.content⟩).advance
  | a, b => .error (.unsupported s!"From {a.encode} To {b.encode} not handled")

def dup (s : State) : Except Fault Outcome := do
  return go s (s.frame.push (← s.frame.stack.peek)).advance

/-- One instruction. -/
def exec (lib : Library) (assertionsOff : Bool) (s : State) (i : Instr) : Except Fault Outcome :=
  match i.op with
  | .push v => .ok (go s (s.frame.push v).advance)
  | .load .int n => load s n.val
  | .load .reference n => load s n.val
  | .binary .int a => binary s a
  | .incr n a => increment s n.val a.val
  | .dup w => if w.val = 1 then dup s else unknown i
  | .get true f => getStatic lib assertionsOff s f
  | .get false f => getField s f
  | .ret t => ret s t
  | .compare c t => compare s c t.val
  | .compareZero c t => compareZero s c t.val
  | .new owner => new lib s owner
  | .store _ n => store s n.val
  | .newArray t d =>
    if d.val = 1 then newArray s t else if d.val = 2 then newMatrix s t else unknown i
  | .arrayStore t => arrayStore s t
  | .arrayLoad t => arrayLoad s t
  | .arrayLength => arrayLength s
  | .invokeStatic m => invokeStatic s m
  | .invokeSpecial m _ => invokeSpecial s m
  | .invokeVirtual m => invokeOn s m
  | .goto t => .ok (go s (s.frame.jump t.val))
  | .cast a b => cast s a b
  | .put false f => putField s f
  | .put true _ => .error (.unsupported "putstatic not implemented")
  | _ => unknown i

/-- The instruction at a place. An offset below zero counts from the end. -/
def fetch (lib : Library) (p : Place) : Except Fault Instr := do
  elementAt (← lib.code p.method) p.offset

/-- One step. Without assertions, the field that turns them off reads as true. The instruction and
the state are written to the log first. -/
def step (lib : Library) (assertionsOff : Bool) (s : State) : Except Fault Outcome := do
  let i ← fetch lib s.frame.place
  let _ ← i.line
  if s.isWritable then exec lib assertionsOff s i else .error Text.tooLong

end Machine

end Assay
