import Assay.Proofs.Machine.Array

/-!
# Null references

Five instructions follow a reference, and each treats a null reference in its own way. A store into
an array and the length of one end the run with `null pointer`. A load of a field ends it under
another name, a store into a field loses the state, and a load from an array fails on the reference
like on any other value that is not a number. The last two come out as the generic error.
-/

namespace Assay

/-- The reference that an instruction follows, found below the operands that were pushed after
it. -/
def Op.reference? (op : Op) (stack : Stack Value) : Option Value :=
  match op, stack with
  | .get false _, r :: _ | .arrayLength, r :: _ => some r
  | .put false _, _ :: r :: _ | .arrayLoad _, _ :: r :: _ => some r
  | .arrayStore _, _ :: _ :: r :: _ => some r
  | _, _ => none

namespace Machine

/-- What comes of an instruction that follows a null reference, at an offset. -/
inductive OnNull (offset : Int) : Op → Except Fault Outcome → Prop
  | get (field : FieldRef) :
      OnNull offset (.get false field) (.ok (.ended ⟨"NullPointerException", offset⟩))
  | put (field : FieldRef) : OnNull offset (.put false field) (.ok (.lost "null pointer"))
  | arrayLoad (type : Ty) (e : Fault) : OnNull offset (.arrayLoad type) (.error e)
  | arrayStore (type : Ty) :
      OnNull offset (.arrayStore type) (.ok (.ended ⟨"null pointer", offset⟩))
  | arrayLength : OnNull offset .arrayLength (.ok (.ended ⟨"null pointer", offset⟩))

/-- The ending of a run in which an instruction follows a null reference. -/
def nullEnding (offset : Int) : Op → Ending
  | .get .. => ⟨"NullPointerException", offset⟩
  | .arrayStore _ | .arrayLength => ⟨"null pointer", offset⟩
  | _ => genericError

section Instructions

variable {s : State} {r : Value} {rest : Stack Value} (hnull : r.content = .null)

include hnull

theorem getField_null (field : FieldRef) (hstack : s.frame.stack = r :: rest) :
    getField s field = .ok (stop s "NullPointerException") := by
  rw [getField, Frame.pop_of_stack hstack, ok_bind]
  simp [hnull]

theorem putField_null (field : FieldRef) {v : Value} (hstack : s.frame.stack = v :: r :: rest) :
    putField s field = .ok (.lost "null pointer") := by
  rw [putField, Frame.pop_of_stack hstack, ok_bind]
  simp [Frame.pop, Stack.pop, hnull]

theorem arrayStore_null (type : Ty) {v index : Value}
    (hstack : s.frame.stack = v :: index :: r :: rest) :
    arrayStore s type = .ok (stop s "null pointer") := by
  rw [arrayStore, Frame.pop_of_stack hstack, ok_bind]
  simp [Frame.pop, Stack.pop, hnull]

theorem arrayLength_null (hstack : s.frame.stack = r :: rest) :
    arrayLength s = .ok (stop s "null pointer") := by
  rw [arrayLength, Frame.pop_of_stack hstack, ok_bind]
  simp [hnull]

/-- Nothing lies in the heap under null. -/
theorem fetch_null (h : Heap) : ∃ e, h.fetch r.content = .error e := by
  rw [hnull]
  exact ⟨_, rfl⟩

theorem arrayLoad_null (type : Ty) {index : Value} (hstack : s.frame.stack = index :: r :: rest) :
    ∃ e, arrayLoad s type = .error e := by
  obtain ⟨e, he⟩ := fetch_null hnull s.heap
  rw [arrayLoad, Frame.pop_of_stack hstack, ok_bind]
  simp only [Frame.pop, Stack.pop, ok_bind, pure_eq_ok, he, error_bind]
  -- the two checks come first, and whichever fails is a fault of its own
  cases require (isInt r) s!"Array ref type mismatch {r.full}" with
  | error e => exact ⟨e, rfl⟩
  | ok u =>
    cases require (isInt index) s!"Index type mismatch {index.type.encode}" with
    | error e => exact ⟨e, rfl⟩
    | ok u => exact ⟨e, rfl⟩

end Instructions

section Step

variable {lib : Library} {off : Bool} {s : State} {i : Instr} {r : Value} {offset : Int} {op : Op}
  {x : Except Fault Outcome}

theorem OnNull.ended_iff (h : OnNull offset op x) :
    x = .ok (.ended ⟨"null pointer", offset⟩) ↔
      op = .arrayLength ∨ ∃ type, op = .arrayStore type := by
  cases h <;> simp

theorem OnNull.run_eq (h : OnNull s.frame.place.offset op (step lib off s)) (n : Nat) :
    run lib off (n + 2) (.running s) = .ok (nullEnding s.frame.place.offset op) := by
  rw [run]
  generalize step lib off s = x at h
  cases h <;> rfl

theorem exec_onNull (hr : i.op.reference? s.frame.stack = some r) (hnull : r.content = .null) :
    OnNull s.frame.place.offset i.op (exec lib off s i) := by
  obtain ⟨o, op⟩ := i
  generalize hstack : s.frame.stack = stack at hr
  dsimp only at hr
  unfold Op.reference? at hr
  split at hr
  next field _ rest =>
    obtain rfl := Option.some.inj hr
    show OnNull _ (.get false field) (getField s field)
    rw [getField_null hnull field hstack]
    exact .get field
  next _ rest =>
    obtain rfl := Option.some.inj hr
    show OnNull _ .arrayLength (arrayLength s)
    rw [arrayLength_null hnull hstack]
    exact .arrayLength
  next field _ _ rest =>
    obtain rfl := Option.some.inj hr
    show OnNull _ (.put false field) (putField s field)
    rw [putField_null hnull field hstack]
    exact .put field
  next type _ _ rest =>
    obtain rfl := Option.some.inj hr
    obtain ⟨e, he⟩ := arrayLoad_null hnull type hstack
    show OnNull _ (.arrayLoad type) (arrayLoad s type)
    rw [he]
    exact .arrayLoad type e
  next type _ _ _ rest =>
    obtain rfl := Option.some.inj hr
    show OnNull _ (.arrayStore type) (arrayStore s type)
    rw [arrayStore_null hnull type hstack]
    exact .arrayStore type
  next => cases hr

end Step

/-- A null reference ends the run as a null pointer only in a store into an array and in the length
of one. A load of a field ends it as something else, and after a store into a field or a load from
an array the run has no ending but the generic error. -/
theorem null_reference_ends {lib : Library} {off : Bool} {s : State} {i : Instr} {r : Value}
    (hfetch : fetch lib s.frame.place = .ok i) (hr : i.op.reference? s.frame.stack = some r)
    (hnull : r.content = .null) :
    (s.isWritable = false → step lib off s = .error Text.tooLong) ∧
    (s.isWritable = true →
      OnNull s.frame.place.offset i.op (step lib off s) ∧
      (step lib off s = .ok (.ended ⟨"null pointer", s.frame.place.offset⟩) ↔
        i.op = .arrayLength ∨ ∃ type, i.op = .arrayStore type) ∧
      ∀ n, run lib off (n + 2) (.running s) = .ok (nullEnding s.frame.place.offset i.op)) := by
  have hnew : ∀ owner, i.op ≠ .new owner := by
    intro owner hop
    rw [hop] at hr
    cases hr
  have hstep : step lib off s = if s.isWritable then exec lib off s i else .error Text.tooLong :=
    step_eq hfetch hnew
  constructor
  · intro hw
    rw [hstep, hw]
    rfl
  · intro hw
    have honNull : OnNull s.frame.place.offset i.op (step lib off s) := by
      rw [hstep, if_pos hw]
      exact exec_onNull hr hnull
    exact ⟨honNull, honNull.ended_iff, honNull.run_eq⟩

section Box

/-- The constant null, as it is pushed. -/
def null : Value := ⟨.reference, .null⟩

def boxId : MethodId := ⟨⟨"math.Box"⟩, "value", [], some .int⟩

def boxField : FieldRef := ⟨.str "math/Box", .str "value", .int⟩

def boxCode : List Instr :=
  [.get false boxField, .put false boxField, .arrayLoad .int, .arrayStore .int].map (Instr.mk .null)

/-- Before an instruction of the code, with nothing in the heap. -/
def boxState (n : Nat) (stack : Stack Value) : State := ⟨.empty, ⟨[], stack, ⟨boxId, n⟩⟩, []⟩

theorem null_reference_ends_box :
    fetch (single boxId boxCode) (boxState 3 [.ofInt 5, .ofInt 0, null]).frame.place =
      .ok ⟨.null, .arrayStore .int⟩ ∧
      (boxState 3 [.ofInt 5, .ofInt 0, null]).isWritable = true ∧
      step (single boxId boxCode) false (boxState 3 [.ofInt 5, .ofInt 0, null]) =
        .ok (.ended ⟨"null pointer", 3⟩) := by
  have hfetch : fetch (single boxId boxCode) (boxState 3 [.ofInt 5, .ofInt 0, null]).frame.place =
      .ok ⟨.null, .arrayStore .int⟩ := fetch_single 3 rfl
  have hw : (boxState 3 [.ofInt 5, .ofInt 0, null]).isWritable = true := by decide +kernel
  have hends := (@null_reference_ends _ false _ _ null hfetch rfl rfl).2 hw
  exact ⟨hfetch, hw, hends.2.1.2 (.inr ⟨.int, rfl⟩)⟩

/-- The load and the store of a field and the load of an element at null, none of which is a null
pointer. -/
theorem null_not_reported :
    Value.ofJson .null = .ok null ∧
    step (single boxId boxCode) false (boxState 0 [null]) =
      .ok (.ended ⟨"NullPointerException", 0⟩) ∧
    step (single boxId boxCode) false (boxState 1 [.ofInt 5, null]) = .ok (.lost "null pointer") ∧
    ∃ e, step (single boxId boxCode) false (boxState 2 [.ofInt 0, null]) = .error e := by
  refine ⟨rfl, step_single 0 rfl rfl (by simp) (by decide +kernel) rfl,
    step_single 1 rfl rfl (by simp) (by decide +kernel) rfl, ?_⟩
  have hfetch : fetch (single boxId boxCode) (boxState 2 [.ofInt 0, null]).frame.place =
      .ok ⟨.null, .arrayLoad .int⟩ := fetch_single 2 rfl
  have hw : (boxState 2 [.ofInt 0, null]).isWritable = true := by decide +kernel
  rw [step_eq hfetch nofun, if_pos hw]
  exact arrayLoad_null (r := null) rfl .int rfl

end Box

end Machine

end Assay
