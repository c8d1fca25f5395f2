import Assay.Instr.Basic

/-!
# Reading instructions

An instruction in a class file is a record whose entry `opr` tells what it does. Each of its other
entries fills a slot, and the slots for numbers, truth values and words are checked in order.
-/

namespace Assay

/-- A part of an instruction. -/
inductive Slot where
  | number (name : String) (content : Json)
  | flag (name : String) (content : Json)
  | word (name : String) (content : Json)
  /-- A part that is not checked. -/
  | free (name : String) (full : String)

namespace Slot

def text : Slot → String
  | number n j | flag n j | word n j => n ++ "=" ++ Label.quoted j
  | free n t => n ++ "=" ++ t

/-- The class of contents that the slot needs, when its content is of another. -/
def misfit? : Slot → Option (String × String × Json)
  | number n j =>
    match j with
    | .int _ | .bool _ => none
    | _ => some (n, "int", j)
  | flag n j =>
    match j with
    | .bool _ => none
    | _ => some (n, "bool", j)
  | word n j =>
    match j with
    | .str _ => none
    | _ => some (n, "str", j)
  | free .. => none

/-- The name of an instruction with its slots. -/
def listing (name : String) (slots : List Slot) : String :=
  name ++ "(" ++ ", ".intercalate (slots.map text) ++ ")"

/-- Every slot has a content of its class. -/
def check (name : String) (slots : List Slot) : Except Fault Unit :=
  match slots.findSome? misfit? with
  | none => .ok ()
  | some (slot, needed, j) =>
    .error (.violated (s!"Expected {Text.quote slot} to be type <class '{needed}'>, but was " ++
      s!"{Label.quoted j}, in {listing name slots}"))

end Slot

namespace Whole

/-- The number in a slot that has been checked. -/
def ofJson : Json → Whole
  | .int n => int n
  | .bool b => flag b
  | _ => int 0

end Whole

namespace FieldRef

/-- The field that a record describes. -/
def ofJson (j : Json) : Except Fault FieldRef := do
  let owner ← j.item "class"
  let name ← j.item "name"
  return ⟨owner, name, ← Ty.ofJson (← j.item "type")⟩

end FieldRef

namespace MethodRef

/-- The method that a record describes. -/
def ofJson (j : Json) : Except Fault MethodRef := do
  let owner ← (← j.item "ref").item "name"
  let name ← j.item "name"
  let params ← Ty.ofJsons (← j.item "args")
  match ← j.item "returns" with
  | .null => return ⟨owner, name, params, none⟩
  | r => return ⟨owner, name, params, some (← Ty.ofJson r)⟩

end MethodRef

namespace Arith

def ofJson : Json → Except Fault Arith
  | .str s =>
    match ofWord? s with
    | some a => .ok a
    | none => .error (.unsupported "")
  | _ => .error (.unsupported "")

end Arith

namespace Op

/-- The name of the kind of instruction. -/
def name : Op → String
  | put .. => "Put"
  | push .. => "Push"
  | newArray .. => "NewArray"
  | dup .. => "Dup"
  | arrayStore .. => "ArrayStore"
  | cast .. => "Cast"
  | arrayLoad .. => "ArrayLoad"
  | arrayLength => "ArrayLength"
  | invokeVirtual .. => "InvokeVirtual"
  | invokeStatic .. => "InvokeStatic"
  | invokeInterface .. => "InvokeInterface"
  | invokeSpecial .. => "InvokeSpecial"
  | store .. => "Store"
  | binary .. => "Binary"
  | load .. => "Load"
  | compare .. => "If"
  | get .. => "Get"
  | compareZero .. => "Ifz"
  | new .. => "New"
  | throw => "Throw"
  | incr .. => "Incr"
  | goto .. => "Goto"
  | ret .. => "Return"

/-- The slots of an instruction after its offset. -/
def slots : Op → List Slot
  | put s f | get s f => [.flag "static" (.bool s), .free "field" f.full]
  | push v => [.free "value" v.full]
  | newArray t d => [.free "type" t.full, .number "dim" d.toJson]
  | dup w => [.number "words" w.toJson]
  | arrayStore t | arrayLoad t => [.free "type" t.full]
  | cast s t => [.free "from_" s.full, .free "to_" t.full]
  | arrayLength | throw => []
  | invokeVirtual m | invokeStatic m => [.free "method" m.full]
  | invokeInterface m n => [.free "method" m.full, .number "stack_size" n.toJson]
  | invokeSpecial m i => [.free "method" m.full, .flag "is_interface" (.bool i)]
  | store t i | load t i => [.free "type" t.full, .number "index" i.toJson]
  | binary t a => [.free "type" t.full, .free "operant" a.full]
  | compare c t | compareZero c t => [.word "condition" (.str c), .number "target" t.toJson]
  | new c => [.free "classname" s!"ClassName({c.quoted})"]
  | incr i a => [.number "index" i.toJson, .number "amount" a.toJson]
  | goto t => [.number "target" t.toJson]
  | ret t => [.free "type" (Signature.returnFull t)]

end Op

namespace Instr

/-- The full name of an instruction. -/
def full (i : Instr) : String :=
  Slot.listing i.op.name (.free "offset" (Label.quoted i.offset) :: i.op.slots)

/-- The instruction `name` at an offset, when its slots have the right contents. -/
def checked (name : String) (offset : Json) (slots : List Slot) (op : Op) : Except Fault Instr := do
  Slot.check name (.number "offset" offset :: slots)
  return ⟨offset, op⟩

/-- The instruction with a truth value in a slot. -/
def asFlag : Json → Bool
  | .bool b => b
  | _ => false

def asWord : Json → String
  | .str s => s
  | _ => ""

/-- The instruction that accesses a field. -/
def ofField (name : String) (make : Bool → FieldRef → Op) (j : Json) : Except Fault Instr := do
  let field ← FieldRef.ofJson (← j.item "field")
  let offset ← j.item "offset"
  let isStatic ← j.item "static"
  checked name offset [.flag "static" isStatic, .free "field" field.full]
    (make (asFlag isStatic) field)

/-- The instruction that has one type. -/
def ofType (name : String) (make : Ty → Op) (j : Json) : Except Fault Instr := do
  let offset ← j.item "offset"
  let t ← Ty.ofJson (← j.item "type")
  checked name offset [.free "type" t.full] (make t)

/-- The instruction that has a type and a number. -/
def ofTypeAndNumber (name slot : String) (make : Ty → Whole → Op) (j : Json) :
    Except Fault Instr := do
  let offset ← j.item "offset"
  let t ← Ty.ofJson (← j.item "type")
  let n ← j.item slot
  checked name offset [.free "type" t.full, .number slot n] (make t (.ofJson n))

/-- The instruction that jumps on a condition. -/
def ofCondition (name : String) (make : String → Whole → Op) (j : Json) : Except Fault Instr := do
  let offset ← j.item "offset"
  let c ← j.item "condition"
  let t ← j.item "target"
  checked name offset [.word "condition" c, .number "target" t] (make (asWord c) (.ofJson t))

/-- The instruction that calls a method. -/
def ofCall (name : String) (make : MethodRef → Op) (j : Json) : Except Fault Instr := do
  let offset ← j.item "offset"
  let m ← MethodRef.ofJson (← j.item "method")
  checked name offset [.free "method" m.full] (make m)

/-- A return gives no value or one that can stand on the stack; its offset is not checked. -/
def ofReturn (offset : Json) (t : Option Ty) : Except Fault Instr :=
  if t.all Ty.isStack then .ok ⟨offset, .ret t⟩
  else .error (.violated "return only handles stack types \x7bself.type()\x7d")

/-- The reader for each way to call a method. -/
def readCall (access : Json) (j : Json) : Option (Except Fault Instr) :=
  match access with
  | .str "virtual" => some (ofCall "InvokeVirtual" .invokeVirtual j)
  | .str "static" => some (ofCall "InvokeStatic" .invokeStatic j)
  | .str "interface" => some do
    let offset ← j.item "offset"
    let m ← MethodRef.ofJson (← j.item "method")
    let n ← j.item "stack_size"
    checked "InvokeInterface" offset [.free "method" m.full, .number "stack_size" n]
      (.invokeInterface m (.ofJson n))
  | .str "special" => some do
    let offset ← j.item "offset"
    let m ← MethodRef.ofJson (← j.item "method")
    let i ← (← j.item "method").item "is_interface"
    checked "InvokeSpecial" offset [.free "method" m.full, .flag "is_interface" i]
      (.invokeSpecial m (asFlag i))
  | _ => none

/-- The reader for each word of `opr` except calls. -/
def readPlain (word : String) (j : Json) : Option (Except Fault Instr) :=
  match word with
  | "put" => some (ofField "Put" .put j)
  | "get" => some (ofField "Get" .get j)
  | "push" => some do
    let offset ← j.item "offset"
    let v ← Value.ofJson (← j.item "value")
    checked "Push" offset [.free "value" v.full] (.push v)
  | "newarray" => some (ofTypeAndNumber "NewArray" "dim" .newArray j)
  | "dup" => some do
    let offset ← j.item "offset"
    let n ← j.item "words"
    checked "Dup" offset [.number "words" n] (.dup (.ofJson n))
  | "array_store" => some (ofType "ArrayStore" .arrayStore j)
  | "array_load" => some (ofType "ArrayLoad" .arrayLoad j)
  | "binary" => some do
    let offset ← j.item "offset"
    let t ← Ty.ofJson (← j.item "type")
    let a ← Arith.ofJson (← j.item "operant")
    checked "Binary" offset [.free "type" t.full, .free "operant" a.full] (.binary t a)
  | "store" => some (ofTypeAndNumber "Store" "index" .store j)
  | "load" => some (ofTypeAndNumber "Load" "index" .load j)
  | "arraylength" => some do checked "ArrayLength" (← j.item "offset") [] .arrayLength
  | "if" => some (ofCondition "If" .compare j)
  | "ifz" => some (ofCondition "Ifz" .compareZero j)
  | "cast" => some do
    let offset ← j.item "offset"
    let s ← Ty.ofJson (← j.item "from")
    let t ← Ty.ofJson (← j.item "to")
    checked "Cast" offset [.free "from_" s.full, .free "to_" t.full] (.cast s t)
  | "new" => some do
    let offset ← j.item "offset"
    let c ← j.item "class"
    checked "New" offset [.free "classname" s!"ClassName({Label.quoted c})"] (.new c)
  | "throw" => some do checked "Throw" (← j.item "offset") [] .throw
  | "incr" => some do
    let offset ← j.item "offset"
    let i ← j.item "index"
    let a ← j.item "amount"
    checked "Incr" offset [.number "index" i, .number "amount" a] (.incr (.ofJson i) (.ofJson a))
  | "goto" => some do
    let offset ← j.item "offset"
    let t ← j.item "target"
    checked "Goto" offset [.number "target" t] (.goto (.ofJson t))
  | "return" => some do
    match (j.get? "type").getD .null with
    | .null => ofReturn (← j.item "offset") none
    | t => do
      let t ← Ty.ofJson t
      ofReturn (← j.item "offset") (some t)
  | _ => none

/-- An instruction that holds something unsupported is itself reported as unsupported. -/
def reportWhole (j : Json) : Except Fault Instr → Except Fault Instr
  | .ok i => .ok i
  | .error e =>
    .error (if e.kind = .unsupported then .unsupported s!"Unhandled opcode {Label.quoted j}" else e)

/-- Reads an instruction of a class file. -/
def ofJson (j : Json) : Except Fault Instr := do
  let word ← j.item "opr"
  let unknown : Fault :=
    .unsupported s!"Unhandled opcode {Label.quoted word} (implement yourself)"
  match word with
  | .str "invoke" =>
    let access ← j.item "access"
    match readCall access j with
    | some r => reportWhole j r
    | none =>
      .error (.unsupported s!"Unhandled invoke access {Label.quoted access} (implement yourself)")
  | .str w =>
    match readPlain w j with
    | some r => reportWhole j r
    | none => .error unknown
  | _ => .error unknown

end Instr

end Assay
