import Assay.Fault
import Assay.Text.Quoted

/-!
# JSON documents

Documents and the ways in which a reader looks into them. Objects keep their keys in order of
appearance.
-/

namespace Assay

inductive Json where
  | null
  | bool (b : Bool)
  | int (n : Int)
  | float (x : Float)
  | str (s : String)
  | arr (xs : List Json)
  | obj (entries : List (String × Json))
  deriving Inhabited

namespace Json

mutual

/-- Two documents are equal, with their entries in the same order. -/
def same : Json → Json → Bool
  | null, null => true
  | bool a, bool b => a == b
  | int a, int b => a == b
  | float a, float b => a == b
  | str a, str b => a == b
  | arr a, arr b => sames a b
  | obj a, obj b => sameEntries a b
  | _, _ => false

def sames : List Json → List Json → Bool
  | [], [] => true
  | a :: as, b :: bs => same a b && sames as bs
  | _, _ => false

def sameEntries : List (String × Json) → List (String × Json) → Bool
  | [], [] => true
  | (k, a) :: es, (l, b) :: fs => k == l && same a b && sameEntries es fs
  | _, _ => false

end

instance : BEq Json := ⟨same⟩

/-- The value under a key. -/
def get? (key : String) : Json → Option Json
  | obj entries => entries.lookup key
  | _ => none

/-- The fault of a missing key. -/
def missing (key : String) : Fault := ⟨.missingKey, Text.quote key⟩

/-- The name of the shape of a document, as faults give it. -/
def shape : Json → String
  | null => "NoneType"
  | bool _ => "bool"
  | int _ => "int"
  | float _ => "float"
  | str _ => "str"
  | arr _ => "list"
  | obj _ => "dict"

/-- The value that an object must hold under a key. -/
def item (key : String) : Json → Except Fault Json
  | obj entries =>
    match entries.lookup key with
    | some v => .ok v
    | none => .error (missing key)
  | arr _ => .error (.wrongShape "list indices must be integers or slices, not str")
  | str _ => .error (.wrongShape "string indices must be integers, not 'str'")
  | j => .error (.wrongShape s!"'{j.shape}' object is not subscriptable")

/-- The value that an object may hold under a key. -/
def entry (key : String) : Json → Except Fault (Option Json)
  | obj entries => .ok (entries.lookup key)
  | j => .error (.noMember s!"'{j.shape}' object has no attribute 'get'")

/-- The word is a key of the object, an element of the list, or a part of the text. -/
def mentions (key : String) : Json → Except Fault Bool
  | obj entries => .ok (entries.lookup key).isSome
  | arr xs => .ok (xs.any fun x => x == str key)
  | str s => .ok (s == key || (splitsAt s.toList))
  | j => .error (.wrongShape s!"argument of type '{j.shape}' is not iterable")
where
  splitsAt : List Char → Bool
    | [] => key.isEmpty
    | c :: cs => key.toList.isPrefixOf (c :: cs) || splitsAt cs

/-- The elements that a list yields, the keys of an object, the characters of a text. -/
def elements : Json → Except Fault (List Json)
  | arr xs => .ok xs
  | obj entries => .ok (entries.map fun e => str e.1)
  | str s => .ok (s.toList.map fun c => str (String.singleton c))
  | j => .error (.wrongShape s!"'{j.shape}' object is not iterable")

/-- The document counts as true: it is neither empty, zero nor null. -/
def truthy : Json → Bool
  | null => false
  | bool b => b
  | int n => n != 0
  | float x => x != 0
  | str s => !s.isEmpty
  | arr xs => !xs.isEmpty
  | obj entries => !entries.isEmpty

end Json

end Assay
