import Assay.Fault

/-!
# Syntax trees

A node of the syntax tree of a Java file: its kind, its text, its children, which of these are
named by fields, and where it stands.
-/

namespace Assay

structure Node where
  kind : String
  text : String
  children : List Node
  /-- Indices of children, by field name. -/
  fields : List (String × Nat)
  /-- The bytes of the file that the node covers. -/
  start : Nat
  stop : Nat
  /-- The line on which it starts, counted from zero. -/
  row : Int
  endRow : Int
  deriving Inhabited

namespace Node

def empty : Node := ⟨"", "", [], [], 0, 0, 0, 0⟩

/-- The child that a field names. -/
def child? (n : Node) (field : String) : Option Node := do
  n.children[← n.fields.lookup field]?

mutual

/-- The node and all below it, parents before children. -/
def all (n : Node) : List Node :=
  match n with
  | ⟨kind, text, children, fields, start, stop, row, endRow⟩ =>
    ⟨kind, text, children, fields, start, stop, row, endRow⟩ :: allOf children

def allOf : List Node → List Node
  | [] => []
  | c :: cs => all c ++ allOf cs

end

/-- The nodes of some kinds, parents before children. -/
def ofKinds (kinds : List String) (n : Node) : List Node :=
  n.all.filter fun m => kinds.contains m.kind

/-- The nodes of some kind, in order of their first byte. -/
def ofKind (kind : String) (n : Node) : List Node :=
  (n.ofKinds [kind]).mergeSort fun a b => a.start ≤ b.start

/-- Expressions that change a variable. -/
def changingKinds : List String := ["update_expression", "assignment_expression"]

mutual

/-- The node or one below it changes a variable. -/
def changesState (n : Node) : Bool :=
  match n with
  | ⟨kind, _, children, _, _, _, _, _⟩ => changingKinds.contains kind || anyChanges children

def anyChanges : List Node → Bool
  | [] => false
  | c :: cs => changesState c || anyChanges cs

end

end Node

end Assay
