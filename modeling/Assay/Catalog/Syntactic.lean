import Assay.Catalog.Effects
import Assay.Catalog.Receiver
import Assay.Catalog.Relabel

/-!
# Assertions by their form

An assertion that changes state, by itself or through a call, is a side effect; one that mentions
nothing that can vary is useless.
-/

namespace Assay

/-- The type of a parameter or else of a local variable. -/
def variableType? (name : String) (params locals : List Variable) : Option String :=
  ((params ++ locals).find? fun v => v.name = name).map Variable.type

namespace Catalog

/-- The call of an assertion changes state. The method is looked up in the class itself, then in
the class of the object on which it is called. -/
def callChanges (c : Catalog) (k : Class) (m : Method) (n : Node) : Except Fault Bool := do
  let call ← Call.ofNode none k.source m k n
  match k.method? call.methodName with
  | some callee => return callee.changesState
  | none =>
    match call.chain with
    | [] => .error (.outOfRange "list index out of range")
    | obj :: _ =>
      let callee := do
        let t ← variableType? obj m.params m.locals
        (← c.class? t).method? call.methodName
      match callee with
      | some callee => return callee.changesState
      | none => return false

/-- Some call in a list changes state. -/
def anyCallChanges (c : Catalog) (k : Class) (m : Method) : List Node → Except Fault Bool
  | [] => .ok false
  | n :: ns => do if ← callChanges c k m n then return true else anyCallChanges c k m ns

/-- Expressions whose value can vary. -/
def varyingKinds : List String :=
  ["identifier", "field_access", "array_access", "method_invocation"]

/-- The label of an assertion by its form. -/
def labelByForm (c : Catalog) (k : Class) (m : Method) (a : Assertion) : Except Fault String := do
  if a.node.changesState then return "side_effect"
  else if ← anyCallChanges c k m (a.node.ofKinds ["method_invocation"]) then return "side_effect"
  else if (a.node.ofKinds varyingKinds).isEmpty then return "useless"
  else return unclassified

/-- Averages and labels by form. What was done before a fault stays done. -/
def analyseForm (c : Catalog) : Catalog × Except Fault Unit :=
  let c := c.map Class.withAverage
  Id.run (relabel (fun k m a => pure (labelByForm c k m a)) c)

end Catalog

end Assay
