import Assay.Fault
import Assay.Ty.Basic

/-!
# The order of types

Simple types are compared by their descriptors, and a simple type is below itself. References,
objects and arrays are compared only with their own kind, by their contents, or with simple types;
two of different kinds are not comparable.
-/

namespace Assay

/-- The four ways to compare. -/
inductive Rel where
  | lt | le | gt | ge
  deriving DecidableEq

namespace Rel

/-- The relation holds of two texts. -/
def onText : Rel → String → String → Bool
  | lt, a, b => a < b
  | le, a, b => !(b < a)
  | gt, a, b => b < a
  | ge, a, b => !(a < b)

/-- The relation holds of two numbers. -/
def onInt : Rel → Int → Int → Bool
  | lt, a, b => a < b
  | le, a, b => a ≤ b
  | gt, a, b => b < a
  | ge, a, b => b ≤ a

/-- The relation holds of equal things. -/
def onEqual : Rel → Bool
  | lt | gt => false
  | le | ge => true

/-- The relation with its sides exchanged. -/
def flip : Rel → Rel
  | lt => gt
  | le => ge
  | gt => lt
  | ge => le

end Rel

namespace Ty

/-- Types without contents that are compared by descriptor. -/
def isSimple : Ty → Bool
  | reference | object _ | array _ => false
  | _ => true

/-- A simple type, by its descriptor `a`, against any type, by its descriptor `b`. -/
def simpleRel (r : Rel) (a b : String) : Bool :=
  match r with
  | .lt => !(b < a)
  | .le => !(b < a)
  | .gt => b < a
  | .ge => b < a

/-- Whether the relation holds of two types, if they are comparable. -/
def rel? (r : Rel) : Ty → Ty → Option Bool
  | reference, reference => some r.onEqual
  | object a, object b => some (if a = b then r.onEqual else r.onText a.text b.text)
  | array a, array b => if a = b then some r.onEqual else rel? r a b
  | a, b =>
    if a.isSimple then some (simpleRel r a.encode b.encode)
    else if b.isSimple then some (simpleRel r.flip b.encode a.encode)
    else none

/-- What kind of content decides whether two types are told apart by their hash: all simple types
and the plain reference have the same one. -/
def hashShape : Ty → Ty
  | object c => object c
  | array t => array t.hashShape
  | _ => reference

def incomparable : Fault := .wrongShape "not comparable"

/-- Whether the relation holds of two types. -/
def rel (r : Rel) (a b : Ty) : Except Fault Bool :=
  match rel? r a b with
  | some x => .ok x
  | none => .error incomparable

/-- Two lists of parameters are compared at the first place where they differ. -/
def relAll (r : Rel) : List Ty → List Ty → Except Fault Bool
  | [], [] => .ok r.onEqual
  | [], _ :: _ => .ok (r.onInt 0 1)
  | _ :: _, [] => .ok (r.onInt 1 0)
  | a :: as, b :: bs => if a = b then relAll r as bs else rel r a b

/-- Return types are compared as types are; nothing and a type are not comparable. -/
def relReturn (r : Rel) : Option Ty → Option Ty → Except Fault Bool
  | none, none => .ok r.onEqual
  | some a, some b => if a = b then .ok r.onEqual else rel r a b
  | some a, none | none, some a =>
    .error (if a.isSimple then .noMember "'NoneType' object has no attribute 'encode'"
      else incomparable)

end Ty

end Assay
