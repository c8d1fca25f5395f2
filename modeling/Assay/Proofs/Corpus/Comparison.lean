import Mathlib.Data.List.Forall2
import Assay.Corpus.Generate

/-!
# Comparisons of the parameters

A branch compares quantities: numerals, parameters, and what signs make of them. `Written` says
which texts write a quantity, with as many blanks and parentheses as one likes. `Branch.Holds` is
what a branch means for numbers that are bound to its parameters, and `Branch.bound` binds an input
to them one by one in their order, which leaves no parameter out only if none before it is left out.
-/

namespace Assay.Corpus

/-- The parameters that have a letter for a name. -/
def letterCount : Nat := 26

/-- The signs between quantities. -/
inductive Sign where
  | add | sub | mul
  deriving DecidableEq

namespace Sign

def apply : Sign → Int → Int → Int
  | add => (· + ·)
  | sub => (· - ·)
  | mul => (· * ·)

def char : Sign → Char
  | add => '+'
  | sub => '-'
  | mul => '*'

end Sign

inductive Quantity where
  | numeral (n : Nat)
  | param (i : Nat)
  | neg (q : Quantity)
  | join (sign : Sign) (p q : Quantity)
  deriving DecidableEq

namespace Quantity

/-- The parameters in order of appearance. -/
def params : Quantity → List Nat
  | numeral _ => []
  | param i => [i]
  | neg q => q.params
  | join _ p q => p.params ++ q.params

def eval (ρ : Nat → Int) : Quantity → Int
  | numeral n => n
  | param i => ρ i
  | neg q => -q.eval ρ
  | join sign p q => sign.apply (p.eval ρ) (q.eval ρ)

/-- The number of a quantity without parameters. -/
def constant (q : Quantity) : Int := q.eval fun _ => 0

/-- No part without parameters has more digits than are written. -/
def IsShort : Quantity → Prop
  | numeral n => Text.isWritable n = true
  | param _ => True
  | neg q => q.IsShort
  | join sign p q => p.IsShort ∧ q.IsShort ∧
      ((join sign p q).params = [] → Text.isWritable (join sign p q).constant = true)

instance decidableIsShort : (q : Quantity) → Decidable q.IsShort
  | numeral n => inferInstanceAs (Decidable (Text.isWritable n = true))
  | param _ => .isTrue trivial
  | neg q => decidableIsShort q
  | join _ p q =>
    have := decidableIsShort p
    have := decidableIsShort q
    inferInstanceAs (Decidable (_ ∧ _ ∧ (_ → _)))

theorem eval_congr {ρ ρ' : Nat → Int} {q : Quantity} (h : ∀ i ∈ q.params, ρ i = ρ' i) :
    q.eval ρ = q.eval ρ' := by
  induction q with
  | numeral n => rfl
  | param i => exact h i (by simp [params])
  | neg q ih => rw [eval, eval, ih h]
  | join sign p q ihp ihq =>
    rw [eval, eval, ihp fun i hi => h i (by simp [params, hi]),
      ihq fun i hi => h i (by simp [params, hi])]

theorem eval_eq_constant {q : Quantity} (h : q.params = []) (ρ : Nat → Int) :
    q.eval ρ = q.constant :=
  eval_congr (by simp [h])

theorem IsShort.isWritable {q : Quantity} (hshort : q.IsShort) (h : q.params = []) :
    Text.isWritable q.constant = true := by
  induction q with
  | numeral n => exact hshort
  | param i => simp [params] at h
  | neg q ih =>
    have hq := ih hshort h
    rwa [Text.isWritable, constant, eval, Int.natAbs_neg]
  | join sign p q => exact hshort.2.2 h

end Quantity

/-- How tightly a quantity is bound. -/
inductive Rank where
  | sum | product | factor | atom
  deriving DecidableEq

def Sign.rank : Sign → Rank
  | add | sub => .sum
  | mul => .product

/-- The rank of what stands after a sign. -/
def Sign.next : Sign → Rank
  | add | sub => .product
  | mul => .factor

def gap (n : Nat) : List Char := List.replicate n ' '

/-- The text writes the quantity. -/
inductive Written : Rank → List Char → Quantity → Prop
  | numeral (n : Nat) : Written .atom (Nat.toDigits 10 n) (.numeral n)
  | param {i : Nat} (h : i < letterCount) : Written .atom (parameterName i).toList (.param i)
  | paren {s : List Char} {q : Quantity} (m n : Nat) (h : Written .sum s q) :
      Written .atom ('(' :: (gap m ++ (s ++ (gap n ++ [')'])))) q
  | neg {s : List Char} {q : Quantity} (n : Nat) (h : Written .factor s q) :
      Written .factor ('-' :: (gap n ++ s)) (.neg q)
  | factor {s : List Char} {q : Quantity} (h : Written .atom s q) : Written .factor s q
  | product {s : List Char} {q : Quantity} (h : Written .factor s q) : Written .product s q
  | sum {s : List Char} {q : Quantity} (h : Written .product s q) : Written .sum s q
  | join {s t : List Char} {p q : Quantity} (sign : Sign) (m n : Nat) (hp : Written sign.rank s p)
      (hq : Written sign.next t q) :
        Written sign.rank (s ++ (gap m ++ sign.char :: (gap n ++ t))) (.join sign p q)

inductive Relation where
  | eq | ne | lt | le | gt | ge
  deriving DecidableEq

namespace Relation

def test : Relation → Int → Int → Bool
  | eq, a, b => a = b
  | ne, a, b => a ≠ b
  | lt, a, b => a < b
  | le, a, b => a ≤ b
  | gt, a, b => b < a
  | ge, a, b => b ≤ a

def text : Relation → String
  | eq => "=="
  | ne => "!="
  | lt => "<"
  | le => "<="
  | gt => ">"
  | ge => ">="

end Relation

structure Comparison where
  left : Quantity
  relation : Relation
  right : Quantity
  deriving DecidableEq

namespace Comparison

def params (c : Comparison) : List Nat := c.left.params ++ c.right.params

def test (c : Comparison) (ρ : Nat → Int) : Bool := c.relation.test (c.left.eval ρ) (c.right.eval ρ)

/-- The text writes the comparison, with nothing around it. -/
def IsText (s : List Char) (c : Comparison) : Prop :=
  ∃ l r m n, Written .sum l c.left ∧ Written .sum r c.right ∧
    s = l ++ (gap m ++ (c.relation.text.toList ++ (gap n ++ r)))

/-- What stands between commas: the text of the comparison, with blanks around it. -/
def IsPiece (piece : List Char) (c : Comparison) : Prop :=
  ∃ m s n, c.IsText s ∧ piece = gap m ++ (s ++ gap n)

theorem test_congr {ρ ρ' : Nat → Int} {c : Comparison} (h : ∀ i ∈ c.params, ρ i = ρ' i) :
    c.test ρ = c.test ρ' := by
  rw [test, test, Quantity.eval_congr fun i hi => h i (by simp [params, hi]),
    Quantity.eval_congr fun i hi => h i (by simp [params, hi])]

end Comparison

/-- What a line tells: the comparisons on the way, and the status. -/
structure Branch where
  conditions : List Comparison
  status : String

namespace Branch

/-- All comparisons hold for the numbers that are bound to the parameters. -/
def Holds (b : Branch) (ρ : Nat → Int) : Prop := ∀ c ∈ b.conditions, c.test ρ = true

/-- The parameters that the branch mentions, in their order. -/
def params (b : Branch) : List Nat :=
  (List.range letterCount).filter fun i => i ∈ b.conditions.flatMap Comparison.params

/-- The branch is about the first `n` parameters, and its constants are not too long. -/
structure IsOver (n : Nat) (b : Branch) : Prop where
  params : ∀ i ∈ b.params, i < n
  left : ∀ c ∈ b.conditions, c.left.IsShort
  right : ∀ c ∈ b.conditions, c.right.IsShort

/-- Every parameter before a mentioned one is mentioned. -/
def IsGapless (b : Branch) : Prop := b.params = List.range b.params.length

/-- The first value belongs to the first parameter that the branch mentions, and so on. -/
def bound (b : Branch) (input : List Int) (i : Nat) : Int := input.getD (b.params.idxOf i) 0

/-- The line writes the branch: comparisons with commas between them, and then the status. -/
structure IsLine (line : String) (b : Branch) : Prop where
  text : ∃ pieces, List.Forall₂ Comparison.IsPiece pieces b.conditions ∧
    line.toList =
      "Branch: [".toList ++ ([','].intercalate pieces ++ ("], Status: ".toList ++ b.status.toList))
  status : b.status.toList ≠ [] ∧ ∀ c ∈ b.status.toList, Text.isWord c = true

instance (b : Branch) (ρ : Nat → Int) : Decidable (b.Holds ρ) :=
  inferInstanceAs (Decidable (∀ c ∈ b.conditions, c.test ρ = true))

theorem isOver_iff {n : Nat} {b : Branch} :
    b.IsOver n ↔ (∀ i ∈ b.params, i < n) ∧ ∀ c ∈ b.conditions, c.left.IsShort ∧ c.right.IsShort :=
  ⟨fun h => ⟨h.params, fun c hc => ⟨h.left c hc, h.right c hc⟩⟩,
    fun h => ⟨h.1, fun c hc => (h.2 c hc).1, fun c hc => (h.2 c hc).2⟩⟩

instance (n : Nat) (b : Branch) : Decidable (b.IsOver n) := decidable_of_iff _ isOver_iff.symm

theorem holds_congr {b : Branch} {ρ ρ' : Nat → Int}
    (h : ∀ c ∈ b.conditions, ∀ i ∈ c.params, ρ i = ρ' i) :
    b.Holds ρ ↔ b.Holds ρ' :=
  forall₂_congr fun c hc => by rw [Comparison.test_congr (h c hc)]

end Branch

end Assay.Corpus
