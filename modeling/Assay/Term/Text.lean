import Assay.Term.Basic

/-!
# Texts of terms

Operators stand between their operands, products without blanks. An operand is put in parentheses
when it is itself an operator that does not bind tighter, except where the meaning is plain: in
sums and products of more than two, in a difference on the left of a difference, in a difference
inside a sum, and in a sum on the left of a difference. The sides of an inequality never are.
-/

namespace Assay.Term

/-- How an operator is written; inequality and the connectives are written as functions are. -/
def Op.infixText? : Op → Option String
  | .add => some " + "
  | .sub => some " - "
  | .mul => some "*"
  | .div => some "/"
  | .ratio => some "/"
  | .mod => some "%"
  | .eq => some " == "
  | .lt => some " < "
  | .le => some " <= "
  | .gt => some " > "
  | .ge => some " >= "
  | .ne | .and | .or => none

/-- Operators of a smaller rank bind tighter. -/
def Op.rank : Op → Nat
  | .mul | .div | .ratio | .mod => 2
  | .add | .sub => 3
  | _ => 8

/-- The operator at the root of the term, if it is written between its operands. -/
def rootInfix? : Term → Option Op
  | bin op _ _ => if op.infixText?.isSome then some op else none
  | _ => none

/-- An operand `child` of the operator `op` needs no parentheses. -/
def bare (op : Op) (first : Bool) (child : Op) : Bool :=
  (op = child && (op = .add || op = .mul || (first && op = .sub))) ||
    child.rank < op.rank || (op = .add && child = .sub) || (op = .sub && first && child = .add)

def numeralText (num : Int) (den : Nat) : String :=
  if den = 1 then toString num else toString num ++ "/" ++ toString den

/-- The text of a term. -/
def text : Term → String
  | int n => toString n
  | real num den => numeralText num den
  | truth b => if b then "True" else "False"
  | var x => x
  | flag x => x
  | not a => "Not(" ++ a.text ++ ")"
  | toReal a => "ToReal(" ++ a.text ++ ")"
  | choice c a b => "If(" ++ c.text ++ ", " ++ a.text ++ ", " ++ b.text ++ ")"
  | bin op a b =>
    let operand (first : Bool) (t : Term) (shown : String) : String :=
      match t.rootInfix? with
      | some child => if bare op first child then shown else "(" ++ shown ++ ")"
      | none => shown
    match op.infixText? with
    | some mark => operand true a a.text ++ mark ++ operand false b b.text
    | none =>
      match op with
      | .ne => a.text ++ " != " ++ b.text
      | .and => "And(" ++ a.text ++ ", " ++ b.text ++ ")"
      | _ => "Or(" ++ a.text ++ ", " ++ b.text ++ ")"

/-- A way to write terms, of which `text` is one. -/
abbrev Printer := Term → String

/-- The text of a list of conditions. -/
def listText (print : Printer) (ts : List Term) : String :=
  "[" ++ ", ".intercalate (ts.map print) ++ "]"

end Assay.Term
