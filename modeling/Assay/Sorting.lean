import Assay.Fault

/-!
# Sorting with comparisons that may fail

A stable sort: it takes the longest run at the front that is already in order, or strictly in
reverse order, and then inserts each further element by bisection. A comparison that fails ends the
sort.
-/

namespace Assay.Sorting

variable {α : Type}

/-- How many of the elements continue an ascending run that ends in `last`. -/
def ascending (less : α → α → Except Fault Bool) (last : α) : List α → Except Fault Nat
  | [] => .ok 0
  | x :: xs => do
    if ← less x last then return 0
    else return (← ascending less x xs) + 1

/-- How many of the elements continue a strictly descending run that ends in `last`. -/
def descending (less : α → α → Except Fault Bool) (last : α) : List α → Except Fault Nat
  | [] => .ok 0
  | x :: xs => do
    if ← less x last then return (← descending less x xs) + 1
    else return 0

/-- The run at the front of the list, in ascending order, and the rest. -/
def firstRun (less : α → α → Except Fault Bool) : List α → Except Fault (List α × List α)
  | [] => .ok ([], [])
  | [x] => .ok ([x], [])
  | x :: y :: rest => do
    if ← less y x then
      let n := (← descending less y rest) + 2
      return (((x :: y :: rest).take n).reverse, (x :: y :: rest).drop n)
    else
      let n := (← ascending less y rest) + 2
      return ((x :: y :: rest).take n, (x :: y :: rest).drop n)

/-- The place of `x` among sorted elements, between `lo` and `hi`: after all that are not above
it. -/
def place (less : α → α → Except Fault Bool) (sorted : List α) (x : α) :
    Nat → Nat → Nat → Except Fault Nat
  | 0, lo, _ => .ok lo
  | fuel + 1, lo, hi =>
    if lo < hi then
      let mid := (lo + hi) / 2
      match sorted[mid]? with
      | none => .ok lo
      | some y => do
        if ← less x y then place less sorted x fuel lo mid
        else place less sorted x fuel (mid + 1) hi
    else .ok lo

/-- Inserts elements into sorted ones, one after the other. -/
def insertAll (less : α → α → Except Fault Bool) (sorted : List α) :
    List α → Except Fault (List α)
  | [] => .ok sorted
  | x :: xs => do
    let i ← place less sorted x sorted.length 0 sorted.length
    insertAll less (sorted.take i ++ x :: sorted.drop i) xs

/-- Sorts a list. -/
def sort (less : α → α → Except Fault Bool) (xs : List α) : Except Fault (List α) := do
  let (run, rest) ← firstRun less xs
  insertAll less run rest

end Assay.Sorting
