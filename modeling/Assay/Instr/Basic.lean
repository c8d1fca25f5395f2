import Assay.MethodId

/-!
# Instructions

The instructions of a decompiled method. A class file is not checked when it is written: a name in
it may be any document, and a number may be given as a truth value.
-/

namespace Assay

/-- A name as it stands in a class file; a proper name is a text. -/
abbrev Label := Json

namespace Label

/-- The label inside a line of text. -/
def shown (l : Label) : String := (Datum.ofJson l).text

/-- The label in quotes, as full names give it. -/
def quoted (l : Label) : String := (Datum.ofJson l).full

def text? : Label → Option String
  | .str s => some s
  | _ => none

end Label

/-- A whole number as it stands in a class file. -/
inductive Whole where
  | int (n : Int)
  | flag (b : Bool)
  deriving DecidableEq, Inhabited

namespace Whole

def val : Whole → Int
  | int n => n
  | flag b => if b then 1 else 0

def toJson : Whole → Json
  | int n => .int n
  | flag b => .bool b

def shown (w : Whole) : String := Label.shown w.toJson

instance : Coe Int Whole := ⟨int⟩

end Whole

/-- A field as an instruction names it. -/
structure FieldRef where
  owner : Label
  name : Label
  type : Ty

namespace FieldRef

def encode (f : FieldRef) : String := s!"{f.owner.shown}.{f.name.shown}:{f.type.encode}"

def full (f : FieldRef) : String :=
  s!"AbsFieldID(classname=ClassName({f.owner.quoted}), " ++
    s!"extension=FieldID(name={f.name.quoted}, type={f.type.full}))"

end FieldRef

/-- A method as an instruction names it. -/
structure MethodRef where
  owner : Label
  name : Label
  params : List Ty
  ret : Option Ty

namespace MethodRef

def signatureText (m : MethodRef) : String :=
  s!"{m.name.shown}:({Ty.encodeAll m.params}){Signature.returnText m.ret}"

def encode (m : MethodRef) : String := s!"{m.owner.shown}.{m.signatureText}"

def signatureFull (m : MethodRef) : String :=
  s!"MethodID(name={m.name.quoted}, params={Ty.fullAll m.params}, " ++
    s!"return_type={Signature.returnFull m.ret})"

def full (m : MethodRef) : String :=
  s!"AbsMethodID(classname=ClassName({m.owner.quoted}), extension={m.signatureFull})"

/-- The method that a reference with proper names means. -/
def target? (m : MethodRef) : Option MethodId := do
  return ⟨⟨← m.owner.text?⟩, ⟨← m.name.text?, m.params, m.ret⟩⟩

end MethodRef

/-- The reference that means a method. -/
def MethodId.ref (m : MethodId) : MethodRef :=
  ⟨.str m.owner.text, .str m.signature.name, m.signature.params, m.signature.ret⟩

theorem MethodRef.target?_ref (m : MethodId) : m.ref.target? = some m := rfl

/-- The operations of arithmetic. -/
inductive Arith where
  | add | sub | mul | div | rem
  deriving DecidableEq, Inhabited

namespace Arith

def word : Arith → String
  | add => "add"
  | sub => "sub"
  | mul => "mul"
  | div => "div"
  | rem => "rem"

def full : Arith → String
  | add => "<BinaryOpr.Add: 1>"
  | sub => "<BinaryOpr.Sub: 2>"
  | mul => "<BinaryOpr.Mul: 3>"
  | div => "<BinaryOpr.Div: 4>"
  | rem => "<BinaryOpr.Rem: 5>"

def ofWord? : String → Option Arith
  | "add" => some add
  | "sub" => some sub
  | "mul" => some mul
  | "div" => some div
  | "rem" => some rem
  | _ => none

end Arith

/-- What an instruction does. -/
inductive Op where
  | put (isStatic : Bool) (field : FieldRef)
  | push (value : Value)
  | newArray (type : Ty) (dim : Whole)
  | dup (words : Whole)
  | arrayStore (type : Ty)
  | cast (source target : Ty)
  | arrayLoad (type : Ty)
  | arrayLength
  | invokeVirtual (method : MethodRef)
  | invokeStatic (method : MethodRef)
  | invokeInterface (method : MethodRef) (stackSize : Whole)
  | invokeSpecial (method : MethodRef) (isInterface : Bool)
  | store (type : Ty) (index : Whole)
  | binary (type : Ty) (operation : Arith)
  | load (type : Ty) (index : Whole)
  /-- Jumps when the comparison of two operands holds. -/
  | compare (condition : String) (target : Whole)
  | get (isStatic : Bool) (field : FieldRef)
  /-- Jumps when the comparison of an operand with zero holds. -/
  | compareZero (condition : String) (target : Whole)
  | new (owner : Label)
  | throw
  | incr (index amount : Whole)
  | goto (target : Whole)
  | ret (type : Option Ty)

/-- An instruction with its place in the bytes of the method. -/
structure Instr where
  offset : Json
  op : Op

end Assay
