import Assay.Ty.Descriptor
import Assay.Ty.Json

/-!
# Identifiers of methods and fields

A signature is a method's name with its parameter and return types, written `name:(params)return`;
`V` stands for no return value. An identifier puts the class in front of it, with a point between.
-/

namespace Assay

structure Signature where
  name : String
  params : List Ty
  /-- Nothing for a method that returns no value. -/
  ret : Option Ty
  deriving DecidableEq, Inhabited

namespace Signature

def returnText (ret : Option Ty) : String :=
  match ret with
  | some t => t.encode
  | none => "V"

def encode (s : Signature) : String :=
  s!"{s.name}:({Ty.encodeAll s.params}){returnText s.ret}"

def returnFull (ret : Option Ty) : String :=
  match ret with
  | some t => t.full
  | none => "None"

def full (s : Signature) : String :=
  s!"MethodID(name={Text.quote s.name}, params={Ty.fullAll s.params}, " ++
    s!"return_type={returnFull s.ret})"

/-- The last place in the text where `:(` stands: the text before it and the text after it. -/
def cutAtOpening? : List Char → Option (List Char × List Char)
  | [] => none
  | c :: cs =>
    match cutAtOpening? cs with
    | some (p, r) => some (c :: p, r)
    | none =>
      match Text.after? [':', '('] (c :: cs) with
      | some r => some ([], r)
      | none => none

/-- Name, parameters and return type of a signature, as texts. The parameters end at the last `)`
of the line and begin at the last `:(` before it. -/
def parts? (cs : List Char) : Option (List Char × List Char × List Char) := do
  let (front, ret) ← Text.cutAtLast? ')' (Text.firstLine cs)
  let (name, params) ← cutAtOpening? front
  return (name, params, ret)

def decodeReturn (cs : List Char) : Except Fault (Option Ty) :=
  if cs = ['V'] then .ok none
  else do
    let shown := String.ofList cs
    let (t, rest) ← Ty.decodeFrom shown cs
    if rest.isEmpty then return some t
    else .error (.malformed s!"could not decode method id, bad return type {Text.quote shown}")

def decodeFrom (cs : List Char) : Except Fault Signature :=
  match parts? cs with
  | none => .error (.malformed s!"('invalid method name: %r', {Text.quote (String.ofList cs)})")
  | some (name, params, ret) => do
    let ret ← decodeReturn ret
    return ⟨String.ofList name, ← Ty.decodeAll params, ret⟩

/-- Reads a signature. -/
def decode (s : String) : Except Fault Signature := decodeFrom s.toList

/-- Signatures are compared by name, then by parameters, then by return type. -/
def rel (r : Rel) (a b : Signature) : Except Fault Bool :=
  if a.name ≠ b.name then .ok (r.onText a.name b.name)
  else if a.params ≠ b.params then Ty.relAll r a.params b.params
  else Ty.relReturn r a.ret b.ret

end Signature

/-- A method of a class. -/
structure MethodId where
  owner : ClassName
  signature : Signature
  deriving DecidableEq, Inhabited

/-- The class in front of an identifier, and the rest: they are divided at the last point of the
line that does not stand at its very front. -/
def ownerParts (cs : List Char) : Except Fault (List Char × List Char) :=
  match Text.cutAtLast? '.' (Text.firstLine cs) with
  | some (c :: cs, rest) => .ok (c :: cs, rest)
  | _ =>
    let shown := Text.quote (String.ofList cs)
    .error (.malformed s!"('invalid absolute method name: %r', {shown})")

namespace MethodId

def encode (m : MethodId) : String := m.owner.text ++ "." ++ m.signature.encode

def full (m : MethodId) : String :=
  s!"AbsMethodID(classname={m.owner.full}, extension={m.signature.full})"

/-- Reads an identifier. -/
def decode (s : String) : Except Fault MethodId := do
  let (owner, rest) ← ownerParts s.toList
  return ⟨⟨String.ofList owner⟩, ← Signature.decodeFrom rest⟩

/-- Methods are compared by class, then by signature. -/
def rel (r : Rel) (a b : MethodId) : Except Fault Bool :=
  if a.owner ≠ b.owner then .ok (r.onText a.owner.text b.owner.text)
  else Signature.rel r a.signature b.signature

/-- Two methods that a hash does not tell apart: the same class and name, and parameters and return
types that differ in simple types only. -/
def sameHash (a b : MethodId) : Bool :=
  a.owner == b.owner && a.signature.name == b.signature.name &&
    a.signature.params.map Ty.hashShape == b.signature.params.map Ty.hashShape &&
    a.signature.ret.map Ty.hashShape == b.signature.ret.map Ty.hashShape

end MethodId

/-- A field by name and type. -/
structure FieldId where
  name : String
  type : Ty
  deriving DecidableEq, Inhabited

namespace FieldId

def encode (f : FieldId) : String := f.name ++ ":" ++ f.type.encode

def full (f : FieldId) : String := s!"FieldID(name={Text.quote f.name}, type={f.type.full})"

def decodeFrom (cs : List Char) : Except Fault FieldId :=
  match Text.cutAtFirst? ':' cs with
  | none => .error (.malformed s!"invalid field id format: {String.ofList cs}")
  | some (name, type) => do
    let (t, rest) ← Ty.decodeFrom (String.ofList type) type
    if rest.isEmpty then return ⟨String.ofList name, t⟩
    else .error (.malformed s!"extra characters in field type: {String.ofList rest}")

/-- Reads a field, written `name:type`. -/
def decode (s : String) : Except Fault FieldId := decodeFrom s.toList

end FieldId

/-- A field of a class. -/
structure OwnedField where
  owner : ClassName
  field : FieldId
  deriving DecidableEq, Inhabited

namespace OwnedField

def encode (f : OwnedField) : String := f.owner.text ++ "." ++ f.field.encode

def full (f : OwnedField) : String :=
  s!"AbsFieldID(classname={f.owner.full}, extension={f.field.full})"

/-- Reads a field with its class in front. -/
def decode (s : String) : Except Fault OwnedField := do
  let (owner, rest) ← ownerParts s.toList
  return ⟨⟨String.ofList owner⟩, ← FieldId.decodeFrom rest⟩

end OwnedField

end Assay
