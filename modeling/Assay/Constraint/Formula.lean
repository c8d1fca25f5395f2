import Assay.Constraint.System
import Assay.Term.Value

/-!
# Formulas

Conditions with the negations pushed inwards and each comparison as a linear constraint. Quotients
and remainders by constants become variables of their own, with constraints that fix them, and so do
choices. A product of variables becomes a variable that nothing fixes, so a solution then has to be
tested.
-/

namespace Assay.Constraint

inductive Formula where
  | truth (b : Bool)
  /-- The form is not negative. -/
  | atLeastZero (e : Linear)
  | zero (e : Linear)
  | nonzero (e : Linear)
  | flag (name : String) (b : Bool)
  | and (a b : Formula)
  | or (a b : Formula)
  deriving Inhabited

namespace Formula

def size : Formula → Nat
  | and a b | or a b => a.size + b.size + 1
  | _ => 1

/-- The size of formulas taken together. -/
def sizes : List Formula → Nat
  | [] => 0
  | f :: fs => f.size + sizes fs

/-- A linear constraint, or the truth value it always has. -/
def ofAtLeastZero (e : Linear) : Formula :=
  if e.coeffs.isEmpty then truth (0 ≤ e.const) else atLeastZero e

def ofZero (e : Linear) : Formula :=
  if e.coeffs.isEmpty then truth (e.const = 0)
  else if e.const % e.gcd ≠ 0 then truth false else zero e

def ofNonzero (e : Linear) : Formula :=
  if e.coeffs.isEmpty then truth (e.const ≠ 0)
  else if e.const % e.gcd ≠ 0 then truth true else nonzero e

def both : Formula → Formula → Formula
  | truth true, b => b
  | a, truth true => a
  | truth false, _ => truth false
  | _, truth false => truth false
  | a, b => and a b

def either : Formula → Formula → Formula
  | truth false, b => b
  | a, truth false => a
  | truth true, _ => truth true
  | _, truth true => truth true
  | a, b => or a b

/-- The numbered variables that occur. -/
def vars : Formula → List Nat
  | atLeastZero e | zero e | nonzero e => e.coeffs.map Prod.fst
  | and a b | or a b => a.vars ++ b.vars
  | _ => []

def flags : Formula → List String
  | flag x _ => [x]
  | and a b | or a b => a.flags ++ b.flags
  | _ => []

end Formula

/-- A linear form over a positive denominator. -/
structure Ratio where
  num : Linear
  den : Nat

/-- What the conversion of terms has made so far. -/
structure Conversion where
  names : List String
  /-- The next free variable. -/
  next : Nat
  /-- What fixes the variables made. -/
  sides : List Formula
  /-- Some variable is not fixed. -/
  loose : Bool

abbrev Convert (α : Type) : Type := StateM Conversion α

namespace Convert

def fresh : Convert Nat := do
  let s ← get
  set { s with next := s.next + 1 }
  return s.next

/-- A variable that nothing fixes. -/
def loose : Convert Ratio := do
  modify fun s => { s with loose := true }
  return ⟨.ofVar (← fresh), 1⟩

/-- The quotient of a form by a number other than zero, so that the remainder is not negative. -/
def quotient (a : Linear) (k : Int) : Convert Linear := do
  let q := Linear.ofVar (← fresh)
  let rem := a.sub (q.scale k)
  let above := (rem.scale (-1)).shift (k.natAbs - 1)
  modify fun s => { s with sides := .atLeastZero rem :: .atLeastZero above :: s.sides }
  return q

/-- One of two numbers, the first where `holds` does and the second where `fails` does. -/
def choice (holds fails : Formula) (x y : Ratio) : Convert Ratio := do
  let v := Linear.ofVar (← fresh)
  let first := Formula.ofZero (v.sub (x.num.scale y.den))
  let second := Formula.ofZero (v.sub (y.num.scale x.den))
  modify fun s => { s with sides := (holds.both first).either (fails.both second) :: s.sides }
  return ⟨v, x.den * y.den⟩

/-- A comparison of the difference of two sides with zero. -/
def comparison (op : Term.Op) (d : Linear) : Formula :=
  match op with
  | .eq => .ofZero d
  | .ne => .ofNonzero d
  | .lt => .ofAtLeastZero ((d.scale (-1)).shift (-1))
  | .le => .ofAtLeastZero (d.scale (-1))
  | .gt => .ofAtLeastZero (d.shift (-1))
  | _ => .ofAtLeastZero d

/-- The comparison that holds when the other does not. -/
def opposite : Term.Op → Term.Op
  | .eq => .ne
  | .ne => .eq
  | .lt => .ge
  | .le => .gt
  | .gt => .le
  | .ge => .lt
  | op => op

mutual

/-- The form of a term that stands for a number. -/
def number : Term → Convert Ratio
  | .int n => return ⟨.ofConst n, 1⟩
  | .real p q => return ⟨.ofConst p, q⟩
  | .var x => do return ⟨.ofVar ((← get).names.idxOf x), 1⟩
  | .toReal a => number a
  | .bin .add a b => do
    let x ← number a
    let y ← number b
    return ⟨(x.num.scale y.den).add (y.num.scale x.den), x.den * y.den⟩
  | .bin .sub a b => do
    let x ← number a
    let y ← number b
    return ⟨(x.num.scale y.den).sub (y.num.scale x.den), x.den * y.den⟩
  | .bin .mul a b => do
    let x ← number a
    let y ← number b
    if x.num.coeffs.isEmpty then return ⟨y.num.scale x.num.const, x.den * y.den⟩
    else if y.num.coeffs.isEmpty then return ⟨x.num.scale y.num.const, x.den * y.den⟩
    else loose
  | .bin .div a b => do
    let x ← number a
    let y ← number b
    if y.num.coeffs.isEmpty ∧ y.num.const ≠ 0 then return ⟨← quotient x.num y.num.const, 1⟩
    else loose
  | .bin .mod a b => do
    let x ← number a
    let y ← number b
    if y.num.coeffs.isEmpty ∧ y.num.const ≠ 0 then
      return ⟨x.num.sub ((← quotient x.num y.num.const).scale y.num.const), 1⟩
    else loose
  | .bin .ratio a b => do
    let x ← number a
    let y ← number b
    if y.num.coeffs.isEmpty ∧ y.num.const ≠ 0 then
      return ⟨x.num.scale (y.den * y.num.const.sign), x.den * y.num.const.natAbs⟩
    else loose
  | .choice c a b => do
    let holds ← formula true c
    let fails ← formula false c
    let x ← number a
    choice holds fails x (← number b)
  | _ => loose

/-- The formula of a term that stands for a truth value, or of its negation. -/
def formula (holds : Bool) : Term → Convert Formula
  | .truth b => return .truth (b == holds)
  | .flag x => return .flag x holds
  | .not a => formula (!holds) a
  | .bin .and a b => do
    let x ← formula holds a
    let y ← formula holds b
    return if holds then x.both y else x.either y
  | .bin .or a b => do
    let x ← formula holds a
    let y ← formula holds b
    return if holds then x.either y else x.both y
  | .bin op a b => do
    if a.kind = .bool then
      let p ← formula true a
      let q ← formula true b
      let np ← formula false a
      let nq ← formula false b
      if (op = .eq) == holds then return (p.both q).either (np.both nq)
      else return (p.both nq).either (np.both q)
    else
      let x ← number a
      let y ← number b
      let d := (x.num.scale y.den).sub (y.num.scale x.den)
      return comparison (if holds then op else opposite op) d
  | _ => return .truth (!holds)

end

end Convert

/-- Literals that must all hold. -/
structure Literals where
  equations : List Linear
  inequalities : List Linear
  inequations : List Linear
  flags : List (String × Bool)

def Literals.solve (next : Nat) (l : Literals) : Solution :=
  solveApart next l.equations l.inequations.length l.inequalities l.inequations

/-- Searches for a solution of literals and formulas. -/
def search (next : Nat) (l : Literals) (todo : List Formula) : Solution × List (String × Bool) :=
  match todo with
  | [] => (l.solve next, l.flags)
  | .truth true :: rest => search next l rest
  | .truth false :: _ => (.unsat, [])
  | .atLeastZero e :: rest => search next { l with inequalities := e :: l.inequalities } rest
  | .zero e :: rest => search next { l with equations := e :: l.equations } rest
  | .nonzero e :: rest => search next { l with inequations := e :: l.inequations } rest
  | .flag x b :: rest =>
    match l.flags.lookup x with
    | some c => if b = c then search next l rest else (.unsat, [])
    | none => search next { l with flags := (x, b) :: l.flags } rest
  | .and a b :: rest => search next l (a :: b :: rest)
  | .or a b :: rest =>
    match search next l (a :: rest) with
    | (.sat m, fs) => (.sat m, fs)
    | (first, _) =>
      match search next l (b :: rest), first with
      | (.sat m, fs), _ => (.sat m, fs)
      | (.unsat, _), .unsat => (.unsat, [])
      | _, _ => (.unknown, [])
termination_by Formula.sizes todo
decreasing_by all_goals simp only [Formula.sizes, Formula.size]; omega

end Assay.Constraint
