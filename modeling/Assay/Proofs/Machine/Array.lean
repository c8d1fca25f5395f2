import Assay.Proofs.Machine.Integer

/-!
# Bounds of arrays

How loads, stores and new arrays treat indices and sizes that do not fit. A store goes on exactly
for the indices of its array, and a matrix needs two sizes that are not negative. A load also takes
the negative indices that count from the end of the array, and a row of negative size is an empty
one.
-/

namespace Assay

theorem Frame.pop_of_stack {f : Frame} {v : Value} {rest : Stack Value} (h : f.stack = v :: rest) :
    f.pop = .ok (v, { f with stack := rest }) := by
  rw [Frame.pop, h]
  rfl

namespace Machine

section Elements

variable {α : Type} {xs : List α} {i : Int}

theorem elementAt_of_nonneg (h : 0 ≤ i) (hlt : i < xs.length) :
    ∃ x, xs[i.toNat]? = some x ∧ elementAt xs i = .ok x := by
  have hi : i.toNat < xs.length := by omega
  have hx := List.getElem?_eq_getElem hi
  refine ⟨xs[i.toNat], hx, ?_⟩
  have heq := elementAt_nat hx
  rwa [Int.toNat_of_nonneg h] at heq

/-- A negative index counts from the end. -/
theorem elementAt_of_neg (h : i < 0) : elementAt xs i =
    if -xs.length ≤ i then elementAt xs (xs.length + i)
      else .error (.outOfRange "list index out of range") := by
  unfold elementAt
  by_cases hlow : -(xs.length : Int) ≤ i
  · have hback : ¬ (xs.length : Int) + i < 0 := by omega
    have hback' : ¬ i + (xs.length : Int) < 0 := by omega
    simp only [h, hlow, hback, hback', if_true, if_false]
    rw [Int.add_comm]
  · have hback : i + (xs.length : Int) < 0 := by omega
    simp only [h, hlow, hback, if_true, if_false]

end Elements

section Instructions

variable {s : State} {rest : Stack Value} {type : Ty} {xs : List Datum} {r i : Int}

theorem fetch_ofInt {h : Heap} {v : Value} (hr : h.get? r = some v) :
    h.fetch (.int r) = .ok (r, v) := by
  simp [Heap.fetch, Heap.find, Heap.isKey, Heap.ref?, Datum.asInt?, hr]

/-- The state after a load of `d`. -/
def loads (s : State) (rest : Stack Value) (d : Datum) : State :=
  { s with frame := ({ s.frame with stack := ⟨.int, d⟩ :: rest } : Frame).advance }

theorem arrayLoad_eq (hstack : s.frame.stack = .ofInt i :: .ofInt r :: rest)
    (hr : s.heap.get? r = some (.ofArray type xs)) :
    arrayLoad s .int = if xs.length ≤ i then .ok (stop s "out of bounds")
      else (elementAt xs i).map fun d => .running (loads s rest d) := by
  have hfetch : s.heap.fetch (Value.ofInt r).content = .ok (r, .ofArray type xs) := fetch_ofInt hr
  rw [arrayLoad, Frame.pop_of_stack hstack, ok_bind]
  simp only [Frame.pop, Stack.pop, ok_bind, pure_eq_ok, isInt_ofInt, require_true, hfetch]
  have helements : elements (Value.ofArray type xs).content = .ok xs := rfl
  have hnumber : number (Value.ofInt i).content = .ok i := rfl
  rw [helements, ok_bind, hnumber, ok_bind]
  cases elementAt xs i <;> rfl

theorem arrayStore_eq (v : Int) (hstack : s.frame.stack = .ofInt v :: .ofInt i :: .ofInt r :: rest)
    (hr : s.heap.get? r = some (.ofArray type xs)) :
    arrayStore s .int = if i < 0 then .ok (stop s "negative array size")
      else if xs.length ≤ i then .ok (stop s "out of bounds")
      else .ok (.running ⟨s.heap.put r (.ofArray .int (xs.set i.toNat (.int v))),
        ({ s.frame with stack := rest } : Frame).advance, s.callers⟩) := by
  have hfetch : s.heap.fetch (Value.ofInt r).content = .ok (r, .ofArray type xs) := fetch_ofInt hr
  have hnumber : number (Value.ofInt i).content = .ok i := rfl
  rw [arrayStore, Frame.pop_of_stack hstack, ok_bind]
  simp only [Frame.pop, Stack.pop, ok_bind, pure_eq_ok, isInt_ofInt, require_true, hfetch, hnumber]
  rfl

theorem newArray_eq (n : Int) (hstack : s.frame.stack = .ofInt n :: rest) :
    newArray s .int =
      .ok (allocate s { s.frame with stack := rest } (.ofArray .int (zeros n))) := by
  have hnumber : number (Value.ofInt n).content = .ok n := rfl
  rw [newArray, Frame.pop_of_stack hstack]
  simp only [decide_true, require_true, ok_bind, isInt_ofInt, hnumber]
  rfl

theorem newMatrix_negative {rows columns : Int}
    (hstack : s.frame.stack = .ofInt columns :: .ofInt rows :: rest) (h : rows < 0 ∨ columns < 0) :
    newMatrix s .int = .ok (stop s "negative array size") := by
  have hrows : number (Value.ofInt rows).content = .ok rows := rfl
  have hcolumns : number (Value.ofInt columns).content = .ok columns := rfl
  rw [newMatrix, Frame.pop_of_stack hstack, ok_bind]
  simp only [Frame.pop, Stack.pop, ok_bind, pure_eq_ok, isInt_ofInt, require_true, hrows, hcolumns]
  by_cases hneg : rows < 0
  · rw [if_pos hneg]
  · rw [if_neg hneg, if_pos (h.resolve_left hneg)]

end Instructions

section Step

variable {lib : Library} {off : Bool} {s : State} {offset : Json} {rest : Stack Value} {type : Ty}
  {xs : List Datum} {r i : Int}

theorem step_arrayLoad (hfetch : fetch lib s.frame.place = .ok ⟨offset, .arrayLoad .int⟩)
    (hw : s.isWritable = true) (hstack : s.frame.stack = .ofInt i :: .ofInt r :: rest)
    (hr : s.heap.get? r = some (.ofArray type xs)) :
    step lib off s = if xs.length ≤ i then .ok (stop s "out of bounds")
      else (elementAt xs i).map fun d => .running (loads s rest d) := by
  rw [step_eq hfetch nofun, if_pos hw]
  exact arrayLoad_eq hstack hr

theorem step_arrayStore (hfetch : fetch lib s.frame.place = .ok ⟨offset, .arrayStore .int⟩)
    (hw : s.isWritable = true) (v : Int)
    (hstack : s.frame.stack = .ofInt v :: .ofInt i :: .ofInt r :: rest)
    (hr : s.heap.get? r = some (.ofArray type xs)) :
    step lib off s = if i < 0 then .ok (stop s "negative array size")
      else if xs.length ≤ i then .ok (stop s "out of bounds")
      else .ok (.running ⟨s.heap.put r (.ofArray .int (xs.set i.toNat (.int v))),
        ({ s.frame with stack := rest } : Frame).advance, s.callers⟩) := by
  rw [step_eq hfetch nofun, if_pos hw]
  exact arrayStore_eq v hstack hr

/-- What the load of an element of `xs` comes to. -/
structure Loads (x : Except Fault Outcome) (s : State) (rest : Stack Value) (xs : List Datum)
    (i : Int) : Prop where
  inside : 0 ≤ i → i < xs.length → ∃ d, xs[i.toNat]? = some d ∧ x = .ok (.running (loads s rest d))
  fromEnd : -xs.length ≤ i → i < 0 → ∃ d, xs[(xs.length + i).toNat]? = some d ∧
  x = .ok (.running (loads s rest d))
  beyond : xs.length ≤ i → x = .ok (.ended ⟨"out of bounds", s.frame.place.offset⟩)
  before : i < -xs.length → ∃ e, x = .error e

theorem loads_elementAt (s : State) (rest : Stack Value) (xs : List Datum) (i : Int) :
    Loads (if xs.length ≤ i then .ok (stop s "out of bounds")
      else (elementAt xs i).map fun d => .running (loads s rest d)) s rest xs i where
  inside hpos hlt := by
    obtain ⟨d, hd, hat⟩ := elementAt_of_nonneg hpos hlt
    refine ⟨d, hd, ?_⟩
    rw [if_neg (by omega), hat]
    rfl
  fromEnd hlow hneg := by
    have hpos : 0 ≤ xs.length + i := by omega
    have hlt : xs.length + i < xs.length := by omega
    obtain ⟨d, hd, hat⟩ := elementAt_of_nonneg hpos hlt
    refine ⟨d, hd, ?_⟩
    rw [if_neg (by omega), elementAt_of_neg hneg, if_pos hlow, hat]
    rfl
  beyond hle := by
    rw [if_pos hle]
    rfl
  before hlt := by
    rw [if_neg (by omega), elementAt_of_neg (by omega), if_neg (by omega)]
    exact ⟨_, rfl⟩

theorem Loads.running_iff {x : Except Fault Outcome} (h : Loads x s rest xs i) :
    (∃ t, x = .ok (.running t)) ↔ -xs.length ≤ i ∧ i < xs.length := by
  constructor
  · rintro ⟨t, rfl⟩
    refine ⟨Int.not_lt.1 fun hlt => ?_, Int.not_le.1 fun hle => ?_⟩
    · obtain ⟨e, he⟩ := h.before hlt
      cases he
    · cases h.beyond hle
  · rintro ⟨hlow, hlt⟩
    by_cases hneg : i < 0
    · obtain ⟨d, -, hd⟩ := h.fromEnd hlow hneg
      exact ⟨_, hd⟩
    · obtain ⟨d, -, hd⟩ := h.inside (Int.not_lt.1 hneg) hlt
      exact ⟨_, hd⟩

end Step

/-- A load goes on for the indices of its array and for as many negative ones, which count from the
end; below these it fails. A store goes on for the indices of its array alone, and else ends the
run. A row of any size is made, an empty one if the size is negative, while a matrix with a negative
size ends the run. -/
theorem array_bounds {lib : Library} {off : Bool} {s : State} {instr : Instr}
    (hfetch : fetch lib s.frame.place = .ok instr) (hw : s.isWritable = true) (rest : Stack Value) :
    (∀ type xs r i, s.heap.get? r = some (.ofArray type xs) →
      (instr.op = .arrayLoad .int → s.frame.stack = .ofInt i :: .ofInt r :: rest →
        ((∃ t, step lib off s = .ok (.running t)) ↔ -xs.length ≤ i ∧ i < xs.length) ∧
        Loads (step lib off s) s rest xs i) ∧
      ∀ v, instr.op = .arrayStore .int → s.frame.stack = .ofInt v :: .ofInt i :: .ofInt r :: rest →
        ((∃ t, step lib off s = .ok (.running t)) ↔ 0 ≤ i ∧ i < xs.length) ∧
        (¬ (0 ≤ i ∧ i < xs.length) → ∃ e, step lib off s = .ok (.ended e))) ∧
    ∀ dim, instr.op = .newArray .int dim →
      (∀ n, dim.val = 1 → s.frame.stack = .ofInt n :: rest →
        step lib off s = .ok (allocate s { s.frame with stack := rest }
          (.ofArray .int (List.replicate n.toNat (.int 0))))) ∧
      ∀ rows columns, dim.val = 2 → s.frame.stack = .ofInt columns :: .ofInt rows :: rest →
        rows < 0 ∨ columns < 0 →
        step lib off s = .ok (.ended ⟨"negative array size", s.frame.place.offset⟩) := by
  obtain ⟨offset, op⟩ := instr
  refine ⟨fun type xs r i hr => ⟨?_, ?_⟩, ?_⟩
  · rintro rfl hstack
    rw [step_arrayLoad hfetch hw hstack hr]
    have hloads := loads_elementAt s rest xs i
    exact ⟨hloads.running_iff, hloads⟩
  · rintro v rfl hstack
    rw [step_arrayStore hfetch hw v hstack hr]
    by_cases hneg : i < 0
    · rw [if_pos hneg]
      exact ⟨⟨nofun, by omega⟩, fun _ => ⟨_, rfl⟩⟩
    · by_cases hle : xs.length ≤ i
      · rw [if_neg hneg, if_pos hle]
        exact ⟨⟨nofun, by omega⟩, fun _ => ⟨_, rfl⟩⟩
      · rw [if_neg hneg, if_neg hle]
        have hin : 0 ≤ i ∧ i < xs.length := by omega
        exact ⟨⟨fun _ => hin, fun _ => ⟨_, rfl⟩⟩, fun hout => absurd hin hout⟩
  · rintro dim rfl
    rw [step_eq hfetch nofun, if_pos hw]
    refine ⟨fun n hdim hstack => ?_, fun rows columns hdim hstack hneg => ?_⟩
    · show (if dim.val = 1 then newArray s .int else _) = _
      rw [if_pos hdim]
      exact newArray_eq n hstack
    · show (if dim.val = 1 then _ else if dim.val = 2 then newMatrix s .int else _) = _
      rw [if_neg (by omega), if_pos hdim]
      exact newMatrix_negative hstack hneg

section Row

def rowId : MethodId := ⟨⟨"math.Row"⟩, "last", [.array .int], some .int⟩

def rowCode : List Instr :=
  [.arrayLoad .int, .arrayStore .int, .newArray .int (.int 1)].map (Instr.mk .null)

/-- Before an instruction of the code, with an array of 7 and 9. -/
def rowState (n : Nat) (stack : Stack Value) : State :=
  ⟨⟨[(0, .ofArray .int [.int 7, .int 9])]⟩, ⟨[], stack, ⟨rowId, n⟩⟩, []⟩

theorem array_bounds_row :
    fetch (single rowId rowCode) (rowState 0 [.ofInt 1, .ofInt 0]).frame.place =
      .ok ⟨.null, .arrayLoad .int⟩ ∧
      (rowState 0 [.ofInt 1, .ofInt 0]).isWritable = true ∧
      Loads (step (single rowId rowCode) false (rowState 0 [.ofInt 1, .ofInt 0]))
        (rowState 0 [.ofInt 1, .ofInt 0]) []
        [.int 7, .int 9] 1 := by
  have hfetch : fetch (single rowId rowCode) (rowState 0 [.ofInt 1, .ofInt 0]).frame.place =
      .ok ⟨.null, .arrayLoad .int⟩ := fetch_single 0 rfl
  have hw : (rowState 0 [.ofInt 1, .ofInt 0]).isWritable = true := by decide +kernel
  exact ⟨hfetch, hw, (((array_bounds hfetch hw []).1 .int [.int 7, .int 9] 0 1 rfl).1 rfl rfl).2⟩

/-- The load at index -1 goes on with the last element, and a row of size -1 is made. -/
theorem load_before_first :
    (∃ t, step (single rowId rowCode) false (rowState 0 [.ofInt (-1), .ofInt 0]) =
      .ok (.running t) ∧
      t.frame.stack = [.ofInt 9]) ∧
    ∃ t, step (single rowId rowCode) false (rowState 2 [.ofInt (-1)]) = .ok (.running t) ∧
      t.heap.get? 1 = some (.ofArray .int []) :=
  ⟨⟨_, step_single 0 rfl rfl (by simp) (by decide +kernel) rfl, rfl⟩,
    _, step_single 2 rfl rfl (by simp) (by decide +kernel) rfl, rfl⟩

end Row

end Machine

end Assay
