import Assay.Catalog.Basic

/-!
# Receivers of calls

The object on which a method is called, as a chain of names, and its type as far as it is known
from parameters, local variables and fields.
-/

namespace Assay

/-- A call of a method on an object. -/
structure Call where
  qualifiedName : String
  methodName : String
  /-- The names that lead to the object. -/
  chain : List String
  objectType : Option String
  deriving Inhabited

namespace Call

def noNode : Fault := .noMember "'NoneType' object has no attribute 'start_byte'"

/-- The names of an object expression. -/
def chainOf (s : Source) : Nat → Node → Except Fault (List String)
  | 0, n => do return [← s.textOf n]
  | fuel + 1, n =>
    if n.kind = "field_access" then
      match n.child? "object", n.child? "field" with
      | some o, some f => do
        let left ← chainOf s fuel o
        return left ++ [← s.textOf f]
      | none, _ => .error (.noMember "'NoneType' object has no attribute 'type'")
      | some o, none => do
        let _ ← chainOf s fuel o
        .error noNode
    else do return [← s.textOf n]

/-- The type of a name: of a parameter, a local variable or a field. -/
def typeOf? (m : Method) (k : Class) (name : String) : Option String :=
  match m.params.find? fun p => p.name = name with
  | some p => some p.type
  | none =>
    match m.localTypes.bind (·.lookup name) with
    | some t => some t
    | none => k.fieldTypes.bind (·.lookup name)

/-- The type at the end of a chain of fields. Without a catalog fields cannot be followed. -/
def follow (known : Option Catalog) : List String → Option String → Except Fault (Option String)
  | [], t => .ok t
  | segment :: rest, t =>
    match known with
    | none => .error (.noMember "'Classes' object has no attribute 'map'")
    | some c =>
      match t.bind c.class? with
      | none => .ok none
      | some k =>
        match k.fieldTypes with
        | none => .ok none
        | some fields => follow known rest (fields.lookup segment)

/-- The type of the last member of a chain. -/
def resolve (known : Option Catalog) (m : Method) (k : Class) :
    List String → Except Fault (Option String)
  | [] => .ok none
  | name :: rest =>
    match typeOf? m k name with
    | none => .ok none
    | some t => follow known rest (some t)

/-- What a call says about its object. -/
def ofNode (known : Option Catalog) (s : Source) (m : Method) (k : Class) (n : Node) :
    Except Fault Call := do
  match n.child? "name" with
  | none => .error noNode
  | some nameNode =>
    let name ← s.textOf nameNode
    match n.child? "object" with
    | none => return ⟨name, name, [], none⟩
    | some o =>
      let chain ← chainOf s o.all.length o
      let type ← resolve known m k chain
      return ⟨".".intercalate (chain ++ [name]), name, chain, type⟩

end Call

end Assay
