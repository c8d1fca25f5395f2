/-!
# Terms

The terms of the constraint language: whole numbers, fractions, variables, arithmetic, comparisons,
the connectives, and the choice between two numbers. Building a term never simplifies it.
-/

namespace Assay

namespace Term

/-- The binary operations. `div` and `mod` are those of whole numbers, `ratio` that of fractions. -/
inductive Op where
  | add | sub | mul | div | mod | ratio
  | eq | ne | lt | le | gt | ge
  | and | or
  deriving DecidableEq, Inhabited

/-- What a term stands for. -/
inductive Kind where
  | int | real | bool
  deriving DecidableEq

end Term

inductive Term where
  | int (n : Int)
  /-- The fraction `num / den`. -/
  | real (num : Int) (den : Nat)
  | truth (b : Bool)
  /-- A variable for a whole number. -/
  | var (name : String)
  /-- A variable for a truth value. -/
  | flag (name : String)
  | bin (op : Term.Op) (a b : Term)
  | not (a : Term)
  /-- A whole number among the fractions. -/
  | toReal (a : Term)
  /-- The first of two numbers if the condition holds, and else the second. -/
  | choice (condition a b : Term)
  deriving DecidableEq, Inhabited

namespace Term

/-- The operation compares numbers or joins truth values. -/
def Op.isLogical : Op → Bool
  | .eq | .ne | .lt | .le | .gt | .ge | .and | .or => true
  | _ => false

def kind : Term → Kind
  | int _ => .int
  | real .. => .real
  | truth _ => .bool
  | var _ => .int
  | flag _ => .bool
  | bin op a b =>
    if op.isLogical then .bool
    else if op = .ratio ∨ a.kind = .real ∨ b.kind = .real then .real else .int
  | not _ => .bool
  | toReal _ => .real
  | choice _ a _ => a.kind

/-- A numeral, of either kind of number. -/
def isNumeral : Term → Bool
  | int _ | real .. => true
  | _ => false

/-- The comparison with its sides exchanged. -/
def Op.swapped : Op → Op
  | .lt => .gt
  | .le => .ge
  | .gt => .lt
  | .ge => .le
  | op => op

/-- A comparison of two terms, in which a numeral stands first. -/
def compare (op : Op) (a b : Term) : Term :=
  if !a.isNumeral && b.isNumeral then bin op.swapped b a else bin op a b

/-- The names of the variables, in order of appearance and with repetitions. -/
def names : Term → List String
  | var x | flag x => [x]
  | bin _ a b => a.names ++ b.names
  | not a | toReal a => a.names
  | choice c a b => c.names ++ a.names ++ b.names
  | _ => []

end Term

end Assay
