import Assay.Instr.Basic
import Assay.Machine.Step
import Assay.Syntax.Node
import Assay.Text.Blank

/-!
# Java expressions

The expressions over whole numbers that assertions are made of, with their types built in, and their
values in Java, except that no number is too large. `IsTree` says which expression a syntax tree
writes.
-/

namespace Assay.Syntax

inductive Kind where
  | number | truth
  deriving DecidableEq

abbrev Kind.Carrier : Kind → Type
  | number => Int
  | truth => Bool

instance (k : Kind) : DecidableEq k.Carrier :=
  match k with
  | .number => inferInstanceAs (DecidableEq Int)
  | .truth => inferInstanceAs (DecidableEq Bool)

inductive Expr : Kind → Type
  /-- A decimal literal, as its characters without the mark of a long number. -/
  | literal (digits : List Char) : Expr .number
  /-- A name or a call. -/
  | name (x : String) : Expr .number
  | paren {k : Kind} (e : Expr k) : Expr k
  | not (e : Expr .truth) : Expr .truth
  | arith (op : Arith) (l r : Expr .number) : Expr .number
  | order (rel : Rel) (l r : Expr .number) : Expr .truth
  /-- The two sides are equal, or if `same` does not hold, unequal. -/
  | equal {k : Kind} (same : Bool) (l r : Expr k) : Expr .truth
  | and (l r : Expr .truth) : Expr .truth
  | or (l r : Expr .truth) : Expr .truth

def literalValue (digits : List Char) : Nat := Nat.ofDigitChars 10 (digits.filter (· ≠ '_')) 0

/-- Arithmetic in Java: a quotient is rounded towards zero. -/
def truncated : Arith → Int → Int → Option Int
  | .add, a, b => some (a + b)
  | .sub, a, b => some (a - b)
  | .mul, a, b => some (a * b)
  | .div, a, b => if b = 0 then none else some (a.tdiv b)
  | .rem, a, b => if b = 0 then none else some (a.tmod b)

def ordered : Rel → Int → Int → Bool
  | .lt, a, b => a < b
  | .le, a, b => a ≤ b
  | .gt, a, b => a > b
  | .ge, a, b => a ≥ b

namespace Expr

def names : {k : Kind} → Expr k → List String
  | _, literal _ => []
  | _, name x => [x]
  | _, paren e => e.names
  | _, not e => e.names
  | _, arith _ l r => l.names ++ r.names
  | _, order _ l r => l.names ++ r.names
  | _, equal _ l r => l.names ++ r.names
  | _, and l r => l.names ++ r.names
  | _, or l r => l.names ++ r.names

/-- The value of an expression, unless it divides by zero. The second operand of a connective is
left alone where the first decides. -/
def eval (σ : String → Int) : {k : Kind} → Expr k → Option k.Carrier
  | _, literal digits => some (literalValue digits : Int)
  | _, name x => some (σ x)
  | _, paren e => e.eval σ
  | _, not e => do return !(← e.eval σ)
  | _, arith op l r => do truncated op (← l.eval σ) (← r.eval σ)
  | _, order rel l r => do return ordered rel (← l.eval σ) (← r.eval σ)
  | _, equal same l r => do return (decide ((← l.eval σ) = (← r.eval σ))) == same
  | _, and l r => do if ← l.eval σ then r.eval σ else return false
  | _, or l r => do if ← l.eval σ then return true else r.eval σ

/-- Every division in the expression, evaluated or not, has a divisor other than zero, a dividend
that is not negative, and a name in one of its operands. -/
def DividesWell (σ : String → Int) : {k : Kind} → Expr k → Prop
  | _, literal _ => True
  | _, name _ => True
  | _, paren e => e.DividesWell σ
  | _, not e => e.DividesWell σ
  | _, arith op l r => l.DividesWell σ ∧ r.DividesWell σ ∧
      (op.divides = true → (∀ a, l.eval σ = some a → 0 ≤ a) ∧ (∀ b, r.eval σ = some b → b ≠ 0) ∧
        (l.names ≠ [] ∨ r.names ≠ []))
  | _, order _ l r => l.DividesWell σ ∧ r.DividesWell σ
  | _, equal _ l r => l.DividesWell σ ∧ r.DividesWell σ
  | _, and l r => l.DividesWell σ ∧ r.DividesWell σ
  | _, or l r => l.DividesWell σ ∧ r.DividesWell σ

end Expr

/-- A decimal literal of Java: digits with underscores among them, the first one not zero unless it
is alone. Java's own bound on the digits, 19 for a long number, is far below the one asked for
here. -/
structure IsNumeral (digits : List Char) : Prop where
  chars : ∀ c ∈ digits, c.isDigit = true ∨ c = '_'
  first : ∃ d ds, digits = d :: ds ∧ d.isDigit = true ∧ (d = '0' → ds = [])
  short : (digits.filter (· ≠ '_')).length ≤ Text.maxDigits

def arithSign : Arith → String
  | .add => "+"
  | .sub => "-"
  | .mul => "*"
  | .div => "/"
  | .rem => "%"

def orderSign : Rel → String
  | .lt => "<"
  | .le => "<="
  | .gt => ">"
  | .ge => ">="

/-- The node writes a sign between two others. -/
def IsBinary (n left right : Node) (sign : String) : Prop :=
  n.kind = "binary_expression" ∧ ∃ op, n.children = [left, op, right] ∧ op.text = sign

/-- The syntax tree at a node writes an expression. -/
inductive IsTree : {k : Kind} → Node → Expr k → Prop
  | literal {n : Node} {digits : List Char} (mark : List Char)
      (hkind : n.kind = "decimal_integer_literal") (hdigits : IsNumeral digits)
      (hmark : mark = [] ∨ mark = ['l'] ∨ mark = ['L'])
      (htext : (Text.trim n.text).toList = digits ++ mark) : IsTree n (.literal digits)
  | name {n : Node} (hkind : n.kind = "identifier" ∨ n.kind = "method_invocation") :
      IsTree n (.name (Text.trim n.text))
  | paren {k : Kind} {n left inner right : Node} {e : Expr k}
      (hkind : n.kind = "parenthesized_expression") (hchildren : n.children = [left, inner, right])
      (h : IsTree inner e) : IsTree n (.paren e)
  | not {n op operand : Node} {e : Expr .truth} (hkind : n.kind = "unary_expression")
      (hchildren : n.children = [op, operand]) (hop : op.text = "!") (h : IsTree operand e) :
        IsTree n (.not e)
  | arith {n left right : Node} {op : Arith} {l r : Expr .number}
      (h : IsBinary n left right (arithSign op)) (hl : IsTree left l) (hr : IsTree right r) :
        IsTree n (.arith op l r)
  | order {n left right : Node} {rel : Rel} {l r : Expr .number}
      (h : IsBinary n left right (orderSign rel)) (hl : IsTree left l) (hr : IsTree right r) :
        IsTree n (.order rel l r)
  | equal {k : Kind} {n left right : Node} {same : Bool} {l r : Expr k}
      (h : IsBinary n left right (if same then "==" else "!=")) (hl : IsTree left l)
      (hr : IsTree right r) :
      IsTree n (.equal same l r)
  | and {n left right : Node} {l r : Expr .truth} (h : IsBinary n left right "&&")
      (hl : IsTree left l) (hr : IsTree right r) : IsTree n (.and l r)
  | or {n left right : Node} {l r : Expr .truth} (h : IsBinary n left right "||")
      (hl : IsTree left l) (hr : IsTree right r) : IsTree n (.or l r)

end Assay.Syntax
