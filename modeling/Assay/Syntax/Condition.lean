import Assay.Syntax.Node
import Assay.Term.Operand
import Assay.Text.Blank

/-!
# Conditions of assertions

The expression of an assertion as a term over whole numbers: every name and every call is a
variable named by its text. What the connectives make of plain truth values is a parameter.
-/

namespace Assay.Syntax

/-- Work on an expression, with the variables met so far. -/
abbrev Naming (α : Type) := StateT (List String) (Except Fault) α

/-- The variable of a text. -/
def variableOf (name : String) : Naming Datum := do
  let names ← get
  if !names.contains name then set (names ++ [name])
  return .term (.var name)

/-- The number of a literal. -/
def literal (text : String) : Except Fault Datum :=
  match Text.readInt text with
  | .ok n => .ok (.int n)
  | .error _ => do return .term (← Operand.realOf text)

/-- The result of a binary operator. -/
def binary (join : Operand.Join) (op : String) (l r : Datum) : Except Fault Datum :=
  match op with
  | "+" => Operand.arith .add l r
  | "-" => Operand.arith .sub l r
  | "*" => Operand.arith .mul l r
  | "/" => Operand.arith .div l r
  | "%" => Operand.arith .mod l r
  | ">" => Operand.compare .gt l r
  | ">=" => Operand.compare .ge l r
  | "<" => Operand.compare .lt l r
  | "<=" => Operand.compare .le l r
  | "==" => Operand.compare .eq l r
  | "!=" => Operand.compare .ne l r
  | "&&" => Operand.connect join .and l r
  | "||" => Operand.connect join .or l r
  | op => .error (.malformed s!"Unhandled binary operator: {op}")

/-- An expression that does not have three parts. -/
def badParts (n : Nat) : Fault :=
  if n < 3 then .malformed s!"not enough values to unpack (expected 3, got {n})"
  else .malformed "too many values to unpack (expected 3)"

def noPart : Fault := .outOfRange "list index out of range"

/-- The term or plain value of an expression. -/
def condition (join : Operand.Join) (n : Node) : Naming Datum :=
  match n with
  | ⟨kind, text, children, _, _, _, _, _⟩ =>
    let name := Text.trim text
    if kind.endsWith "_literal" then liftM (literal name)
    else if kind = "identifier" ∨ kind = "method_invocation" then variableOf name
    else if kind = "parenthesized_expression" then
      match children with
      | _ :: inner :: _ => condition join inner
      | _ => throw noPart
    else if kind = "unary_expression" then
      match children with
      | op :: operand :: _ =>
        if op.text = "!" then do
          let d ← condition join operand
          liftM (Operand.negation d)
        else throw (.malformed s!"Unhandled unary operator: {op.text}")
      | _ => throw noPart
    else if kind = "binary_expression" then
      match children with
      | [left, op, right] => do
        let l ← condition join left
        let r ← condition join right
        liftM (binary join op.text l r)
      | _ => throw (badParts children.length)
    else throw (.malformed s!"Unhandled node type: {kind} with text: {name}")

end Assay.Syntax
