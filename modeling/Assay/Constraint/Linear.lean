/-!
# Linear forms

Sums of variables with whole coefficients and a constant. Variables are numbered.
-/

namespace Assay

structure Linear where
  /-- The variables in ascending order, with coefficients other than zero. -/
  coeffs : List (Nat × Int)
  const : Int
  deriving DecidableEq, Inhabited

namespace Linear

def ofConst (c : Int) : Linear := ⟨[], c⟩

def ofVar (v : Nat) : Linear := ⟨[(v, 1)], 0⟩

/-- Adds to the coefficient of a variable. -/
def addCoeff (v : Nat) (c : Int) : List (Nat × Int) → List (Nat × Int)
  | [] => if c = 0 then [] else [(v, c)]
  | (w, d) :: rest =>
    if v < w then if c = 0 then (w, d) :: rest else (v, c) :: (w, d) :: rest
    else if v = w then if c + d = 0 then rest else (w, c + d) :: rest
    else (w, d) :: addCoeff v c rest

def add (a b : Linear) : Linear :=
  ⟨a.coeffs.foldr (fun (v, c) acc => addCoeff v c acc) b.coeffs, a.const + b.const⟩

def scale (k : Int) (a : Linear) : Linear :=
  if k = 0 then ofConst 0 else ⟨a.coeffs.map fun (v, c) => (v, k * c), k * a.const⟩

def sub (a b : Linear) : Linear := a.add (b.scale (-1))

def shift (c : Int) (a : Linear) : Linear := { a with const := a.const + c }

def coeff (v : Nat) (a : Linear) : Int := (a.coeffs.lookup v).getD 0

/-- The form without a variable. -/
def erase (v : Nat) (a : Linear) : Linear := { a with coeffs := a.coeffs.filter fun e => e.1 ≠ v }

/-- The form with a variable replaced by another form. -/
def subst (v : Nat) (by' : Linear) (a : Linear) : Linear :=
  let c := a.coeff v
  if c = 0 then a else (a.erase v).add (by'.scale c)

/-- The value under values for some variables; all others are zero. -/
def eval (m : List (Nat × Int)) (a : Linear) : Int :=
  a.coeffs.foldl (fun acc (v, c) => acc + c * (m.lookup v).getD 0) a.const

/-- The greatest common divisor of the coefficients. -/
def gcd (a : Linear) : Nat := a.coeffs.foldl (fun g (_, c) => Nat.gcd g c.natAbs) 0

/-- The form divided by a number that divides it, the constant rounded down. -/
def divide (g : Nat) (a : Linear) : Linear :=
  ⟨a.coeffs.map fun (v, c) => (v, c / g), a.const / g⟩

end Linear

end Assay
