import Assay.Constraint.Linear

/-!
# Systems of linear constraints

Decides whether equations and inequalities have a solution in whole numbers, and finds one.
Equations are removed by substitution, as in Euclid's algorithm. A variable is removed from
inequalities by joining its lower with its upper bounds: the join is exact if one side has
coefficient one; otherwise a sharper join is tried first, and what lies between the two is searched.
-/

namespace Assay.Constraint

/-- The outcome for a system. -/
inductive Solution where
  /-- Values for some variables; all others may be zero. -/
  | sat (values : List (Nat × Int))
  | unsat
  | unknown
  deriving Inhabited

/-- The coefficient of smallest size, with its variable. -/
def smallest : List (Nat × Int) → Option (Nat × Int)
  | [] => none
  | e :: es =>
    match smallest es with
    | none => some e
    | some f => if f.2.natAbs < e.2.natAbs then some f else some e

/-- Inequalities `a ≥ 0` with coprime coefficients, or nothing if one of them can never hold. -/
def tighten : List Linear → Option (List Linear)
  | [] => some []
  | a :: as =>
    if a.coeffs.isEmpty then if a.const < 0 then none else tighten as
    else do return a.divide a.gcd :: (← tighten as)

/-- Adds an inequality; of two with the same coefficients the sharper one stays. -/
def insertSharp (a : Linear) : List Linear → List Linear
  | [] => [a]
  | b :: bs =>
    if a.coeffs = b.coeffs then (if a.const < b.const then a else b) :: bs
    else b :: insertSharp a bs

/-- The bounds of a variable: `c * v + rest ≥ 0`. -/
structure Bounds where
  lower : List (Int × Linear)
  upper : List (Int × Linear)
  others : List Linear

def bounds (v : Nat) (as : List Linear) : Bounds :=
  as.foldr (fun a b =>
    let c := a.coeff v
    if c = 0 then { b with others := a :: b.others }
    else if c < 0 then { b with upper := (-c, a.erase v) :: b.upper }
    else { b with lower := (c, a.erase v) :: b.lower }) ⟨[], [], []⟩

namespace Bounds

def oneSided (b : Bounds) : Bool := b.lower.isEmpty || b.upper.isEmpty

def exact (b : Bounds) : Bool := b.lower.all (·.1 = 1) || b.upper.all (·.1 = 1)

def cost (b : Bounds) : Nat := b.lower.length * b.upper.length

/-- Every lower bound joined with every upper bound. The sharper join leaves room for a whole
number between them. -/
def join (b : Bounds) (sharper : Bool) : List Linear :=
  b.lower.flatMap fun (a, p) => b.upper.map fun (c, q) =>
    let e := (q.scale a).add (p.scale c)
    if sharper then e.shift (-((a - 1) * (c - 1))) else e

/-- A value between the bounds. -/
def value (b : Bounds) (m : List (Nat × Int)) : Int :=
  let lows := b.lower.map fun (a, p) => -((p.eval m) / a)
  let highs := b.upper.map fun (c, q) => q.eval m / c
  match lows, highs with
  | x :: xs, _ => xs.foldl max x
  | [], y :: ys => ys.foldl min y
  | [], [] => 0

/-- The equations that stand for the values which the sharper join may miss. -/
def gaps (b : Bounds) (v : Nat) : List Linear :=
  let top := b.upper.foldl (fun t (c, _) => max t c) 1
  b.lower.flatMap fun (a, p) =>
    (List.range ((a * top - a - top) / top + 1).toNat).map fun (i : Nat) =>
      (((Linear.ofVar v).scale a).add p).shift (-i)

end Bounds

/-- The variable that is cheapest to remove. -/
def choose (as : List Linear) : Option (Nat × Bounds) :=
  let vars := (as.flatMap fun a => a.coeffs.map Prod.fst).eraseDups
  let rank (b : Bounds) : Nat :=
    if b.oneSided then 0 else if b.exact then 1 + b.cost else 1000000 + b.cost
  vars.foldl (fun best v =>
    let b := bounds v as
    match best with
    | none => some (v, b)
    | some (_, old) => if rank b < rank old then some (v, b) else best) none

/-- The first solution among some systems. -/
def firstSat (solve : Linear → Solution) : List Linear → Solution
  | [] => .unsat
  | e :: es =>
    match solve e with
    | .sat m => .sat m
    | .unsat => firstSat solve es
    | .unknown =>
      match firstSat solve es with
      | .sat m => .sat m
      | _ => .unknown

/-- Solves equations `e = 0` and inequalities `a ≥ 0`. Variables from `next` on are free to use. -/
def solve : Nat → Nat → List Linear → List Linear → Solution
  | 0, _, _, _ => .unknown
  | fuel + 1, next, e :: es, as =>
    let replace (v : Nat) (by' : Linear) (next : Nat) (es as : List Linear) : Solution :=
      match solve fuel next (es.map (Linear.subst v by')) (as.map (Linear.subst v by')) with
      | .sat m => .sat ((v, by'.eval m) :: m)
      | other => other
    match smallest e.coeffs with
    | none => if e.const = 0 then solve fuel next es as else .unsat
    | some (v, c) =>
      if e.const % e.gcd ≠ 0 then .unsat
      else if c.natAbs = e.gcd then
        let e := e.divide e.gcd
        replace v ((e.erase v).scale (-(c.sign))) next es as
      else
        let quotients : Linear := ⟨(e.erase v).coeffs.map fun (w, d) => (w, -(d.fdiv c)), 0⟩
        replace v ((Linear.ofVar next).add ⟨quotients.coeffs.filter fun q => q.2 ≠ 0, 0⟩) (next + 1)
          (e :: es) as
  | fuel + 1, next, [], as =>
    match tighten as with
    | none => .unsat
    | some as =>
      let as := as.foldl (fun acc a => insertSharp a acc) []
      match choose as with
      | none => .sat []
      | some (v, b) =>
        let extend (s : Solution) : Solution :=
          match s with
          | .sat m => .sat ((v, b.value m) :: m)
          | other => other
        if b.oneSided then extend (solve fuel next [] b.others)
        else if b.exact then extend (solve fuel next [] (b.join false ++ b.others))
        else
          match solve fuel next [] (b.join true ++ b.others) with
          | .sat m => extend (.sat m)
          | _ =>
            match solve fuel next [] (b.join false ++ b.others) with
            | .unsat => .unsat
            | _ => firstSat (fun e => solve fuel next [e] as) (b.gaps v)

/-- The depth to which a system is searched. -/
def searchDepth : Nat := 2000

/-- Solves equations, inequalities and inequations `d ≠ 0`. An inequation is split only if a
solution of the rest violates it. -/
def solveApart (next : Nat) (es : List Linear) : Nat → List Linear → List Linear → Solution
  | 0, as, _ => solve searchDepth next es as
  | fuel + 1, as, ds =>
    match solve searchDepth next es as with
    | .sat m =>
      match ds.find? fun d => d.eval m = 0 with
      | none => .sat m
      | some d =>
        let rest := ds.erase d
        match solveApart next es fuel (d.shift (-1) :: as) rest with
        | .unsat => solveApart next es fuel ((d.scale (-1)).shift (-1) :: as) rest
        | .unknown =>
          match solveApart next es fuel ((d.scale (-1)).shift (-1) :: as) rest with
          | .sat m => .sat m
          | _ => .unknown
        | .sat m => .sat m
    | other => other

end Assay.Constraint
