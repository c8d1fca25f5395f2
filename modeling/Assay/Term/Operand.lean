import Assay.Datum
import Assay.Decimal.Quotient
import Assay.Decimal.Reading

/-!
# Operands

An operand of an expression is a plain number or truth value, or a term. Operations on plain
operands are carried out; as soon as a term is among them they build a term, and the plain operand
becomes a numeral. In a comparison of a plain operand with a term the term comes first. Beside a
whole number a truth value counts as one or zero, and a product with it is a choice.
-/

namespace Assay.Operand

def badTerm : Fault := ⟨.badTerm, "invalid argument"⟩

def unsupported : Fault := .wrongShape "unsupported operand"

/-- A truth value does not count among fractions. -/
def noFraction : Fault := .noMember "truth value among fractions"

def divisionByZero : Fault := ⟨.divisionByZero, "division by zero"⟩

/-- The digits of a text; all other characters are passed over. -/
def digitsIn (cs : List Char) : List Nat := cs.filterMap Text.digit?

/-- Reads a fraction or a decimal numeral. -/
def fraction? (s : String) : Option (Int × Nat) :=
  let cs := s.toList.dropWhile (· = ' ')
  let allowed (c : Char) : Bool := c.isDigit || "/- \n.eE+".toList.contains c
  if cs.all allowed then
    let negative := cs.head? = some '-'
    let isE (c : Char) : Bool := c = 'e' || c = 'E'
    let mantissa := cs.takeWhile fun c => !isE c
    let exponent := (cs.drop (mantissa.length + 1))
    let whole := mantissa.takeWhile fun c => c ≠ '/' ∧ c ≠ '.'
    let rest := mantissa.drop whole.length
    let (num, den) : Nat × Nat :=
      match rest with
      | '/' :: ds =>
        let d := digitsIn ds
        (Text.numberOf (digitsIn whole), if d.isEmpty then 1 else Text.numberOf d)
      | '.' :: ds =>
        let d := digitsIn ds
        (Text.numberOf (digitsIn whole ++ d), Nat.pow 10 d.length)
      | _ => (Text.numberOf (digitsIn whole), 1)
    let e := Text.numberOf (digitsIn exponent)
    let (num, den) :=
      if exponent.head? = some '-' then (num, den * Nat.pow 10 e) else (num * Nat.pow 10 e, den)
    if den = 0 then none
    else
      let g := Nat.gcd num den
      let n : Int := num / g
      some (if negative then -n else n, den / g)
  else none

/-- The numeral of a fraction. -/
def realOf (s : String) : Except Fault Term :=
  match fraction? s with
  | some (n, d) => .ok (.real n d)
  | none => .error badTerm

/-- The number that a datum stands for in a term; a fraction is cut off. -/
def numeral (d : Datum) : Except Fault Term :=
  match d with
  | .float x =>
    if Decimal.isNaN x then .error (.malformed "cannot convert float NaN to integer")
    else if Decimal.isFinite x then .ok (.int (Decimal.wholePart x))
    else .error ⟨.overflow, "cannot convert float infinity to integer"⟩
  | .str s =>
    match Text.readInt s with
    | .ok n => .ok (.int n)
    | .error _ => .error badTerm
  | d =>
    match d.asInt? with
    | some n => .ok (.int n)
    | none => .error badTerm

/-- A plain operand as a term beside terms of a kind. A whole number is handed over as its
digits. -/
def lift (kind : Term.Kind) (d : Datum) : Except Fault Term :=
  match kind, d with
  | .bool, .bool b => .ok (.truth b)
  | .bool, _ => .error badTerm
  | .int, .int n => if Text.isWritable n then .ok (.int n) else .error Text.tooLong
  | .int, d => numeral d
  | .real, .float x => realOf (Decimal.write x)
  | .real, .int n => if Text.isWritable n then .ok (.real n 1) else .error Text.tooLong
  | .real, .str s => realOf s
  | .real, _ => .error badTerm

/-- A truth value as a number: one if it holds, and else zero. -/
def counted (t : Term) : Term := .choice t (.int 1) (.int 0)

/-- Two terms as terms of the same kind. -/
def unify (a b : Term) : Except Fault (Term × Term) :=
  match a.kind, b.kind with
  | .int, .int => .ok (a, b)
  | .int, .real => .ok (.toReal a, b)
  | .int, .bool => .ok (a, counted b)
  | .real, .int => .ok (a, .toReal b)
  | .real, .real => .ok (a, b)
  | .real, .bool => .error noFraction
  | .bool, .int => .ok (counted a, b)
  | .bool, .real => .error noFraction
  | .bool, .bool => .ok (a, b)

/-- The number if the condition holds, and else zero. -/
def gated (condition a : Term) : Term :=
  .choice condition a (if a.kind = .real then .real 0 1 else .int 0)

/-- A truth value times a number; one and zero leave no choice. -/
def scaledTruth (t a : Term) : Datum :=
  if a = .int 1 ∨ a = .real 1 1 then .term t
  else if a = .int 0 ∨ a = .real 0 1 then .int 0
  else .term (gated t a)

/-- A truth value times a plain number. A fraction makes a fraction of the zero too. -/
def scaledPlain (t : Term) (d : Datum) : Except Fault Datum :=
  match d with
  | .float x =>
    if x == 1 then .ok (.term t)
    else if x == 0 then .ok (.int 0)
    else do return .term (.choice t (← realOf (Decimal.write x)) (.toReal (.int 0)))
  | d =>
    match d.asInt? with
    | some n => .ok (scaledTruth t (.int n))
    | none => .error badTerm

/-- An arithmetic operation on terms. Truth values have none among themselves. -/
def termArith (op : Term.Op) (a b : Term) : Except Fault Datum := do
  if a.kind = .bool ∧ b.kind = .bool then .error (if op = .mul then badTerm else unsupported)
  else if op = .mul ∧ a.kind = .bool then return scaledTruth a b
  else if op = .mul ∧ b.kind = .bool then return .term (gated b a)
  else
    let (a, b) ← unify a b
    if a.kind = .real then
      if op = .mod then .error badTerm
      else return .term (.bin (if op = .div then .ratio else op) a b)
    else return .term (.bin op a b)

/-- An arithmetic operation on plain numbers. A quotient is a floating-point number. -/
def plainArith (op : Term.Op) (a b : Datum) : Except Fault Datum :=
  match a.asInt?, b.asInt? with
  | some m, some n =>
    match op with
    | .add => .ok (.int (m + n))
    | .sub => .ok (.int (m - n))
    | .mul => .ok (.int (m * n))
    | .div => if n = 0 then .error divisionByZero else .ok (.float (Decimal.ratio m n))
    | .mod => if n = 0 then .error divisionByZero else .ok (.int (m.fmod n))
    | _ => .error unsupported
  | _, _ =>
    match a.asFloat?, b.asFloat? with
    | some x, some y =>
      match op with
      | .add => .ok (.float (x + y))
      | .sub => .ok (.float (x - y))
      | .mul => .ok (.float (x * y))
      | .div => if y == 0 then .error divisionByZero else .ok (.float (x / y))
      | .mod => if y == 0 then .error divisionByZero else .ok (.float (x - (x / y).floor * y))
      | _ => .error unsupported
    | _, _ => .error unsupported

def arith (op : Term.Op) (a b : Datum) : Except Fault Datum :=
  match a, b with
  | .term s, .term t => termArith op s t
  | .term s, d =>
    if s.kind = .bool then if op = .mul then scaledPlain s d else .error unsupported
    else do termArith op s (← lift s.kind d)
  | d, .term t =>
    if t.kind = .bool then if op = .mul then scaledPlain t d else .error unsupported
    else do termArith op (← lift t.kind d) t
  | a, b => plainArith op a b

/-- The comparison only tells equal from unequal. -/
def isEquality (op : Term.Op) : Bool := op = .eq || op = .ne

/-- The comparison of two terms is made with its sides exchanged: to put a numeral first, or a
number before a truth value. -/
def isExchanged (op : Term.Op) (a b : Term) : Bool :=
  if a.kind = .bool then !isEquality op else !a.isNumeral && b.isNumeral

/-- A comparison of terms. -/
def termCompare (op : Term.Op) (a b : Term) : Except Fault Term := do
  if a.kind = .bool ∧ b.kind = .bool ∧ !isEquality op then .error unsupported
  else if isExchanged op a b then
    let (b, a) ← unify b a
    return .bin op.swapped b a
  else
    let (a, b) ← unify a b
    return .bin op a b

/-- A comparison of a term with a plain operand. -/
def mixedCompare (op : Term.Op) (t : Term) (d : Datum) : Except Fault Term := do
  if t.kind = .bool ∧ !isEquality op then .error unsupported
  else
    let (a, b) ← unify t (← lift t.kind d)
    return .bin op a b

def plainCompare (op : Term.Op) (a b : Datum) : Except Fault Bool :=
  match op with
  | .eq => .ok (a == b)
  | .ne => .ok (a != b)
  | .lt => Datum.rel .lt a b
  | .le => Datum.rel .le a b
  | .gt => Datum.rel .gt a b
  | _ => Datum.rel .ge a b

/-- A comparison of a term with nothing: they are never equal. -/
def compareNothing (op : Term.Op) (t : Term) : Except Fault Datum :=
  if isEquality op then .ok (.bool (op = .ne)) else do return .term (← mixedCompare op t .null)

def compare (op : Term.Op) (a b : Datum) : Except Fault Datum :=
  match a, b with
  | .term t, .null => compareNothing op t
  | .null, .term t => compareNothing op.swapped t
  | .term s, .term t => do return .term (← termCompare op s t)
  | .term s, d => do return .term (← mixedCompare op s d)
  | d, .term t => do return .term (← mixedCompare op.swapped t d)
  | a, b => do return .bool (← plainCompare op a b)

/-- A truth value as a term. -/
def truthOf : Datum → Except Fault Term
  | .bool b => .ok (.truth b)
  | .term t => if t.kind = .bool then .ok t else .error badTerm
  | _ => .error badTerm

/-- The term that joins two truth values. -/
def joined (op : Term.Op) (a b : Datum) : Except Fault Datum := do
  return .term (.bin op (← truthOf a) (← truthOf b))

/-- What a connective makes of two plain operands. -/
abbrev Join := Term.Op → Datum → Datum → Except Fault Datum

/-- Plain operands are not joined. -/
def refused : Join := fun _ _ _ => .error badTerm

/-- Joins two truth values. What becomes of them if none is a term is a parameter. -/
def connect (join : Join) (op : Term.Op) (a b : Datum) : Except Fault Datum :=
  match a, b with
  | .term _, _ | _, .term _ => joined op a b
  | _, _ => join op a b

def negation (a : Datum) : Except Fault Datum := do return .term (.not (← truthOf a))

/-- Whether an operand counts as true. Of terms only constants and equations can be asked. -/
def holds : Datum → Except Fault Bool
  | .term (.truth b) => .ok b
  | .term (.bin .eq a b) => .ok (a == b)
  | .term _ => .error badTerm
  | d => .ok d.truthy

end Assay.Operand
