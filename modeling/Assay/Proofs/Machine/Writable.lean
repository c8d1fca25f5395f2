import Assay.Proofs.Text
import Assay.Proofs.Machine.Fields
import Assay.Proofs.Machine.Heap

/-!
# Heaps that can be written

A step writes the whole state to the log before it executes an instruction. So everything that it
puts into the heap is new and small, or was on the stack or in the heap when they were written, and
a heap that can be written stays one. Only the numbers of entries grow without bound, in arrays of
arrays, so the number of entries is part of the statements.
-/

namespace Assay

namespace Datum

theorem areWritable_iff {xs : List Datum} :
    areWritable xs = true ↔ ∀ x ∈ xs, x.isWritable = true := by
  induction xs with
  | nil => simp [areWritable]
  | cons x xs ih => simp [areWritable, ih]

theorem areWritableEntries_iff {es : List (String × Datum)} :
    areWritableEntries es = true ↔ ∀ e ∈ es, e.2.isWritable = true := by
  induction es with
  | nil => simp [areWritableEntries]
  | cons e es ih => simp [areWritableEntries, ih]

theorem isWritable_of_elements? {d : Datum} {xs : List Datum} (hxs : d.elements? = some xs)
    (hd : d.isWritable = true) : ∀ x ∈ xs, x.isWritable = true := by
  cases d with
  | list ys =>
    obtain rfl := Option.some.inj hxs
    exact areWritable_iff.1 hd
  | tuple ys =>
    obtain rfl := Option.some.inj hxs
    exact areWritable_iff.1 hd
  | record es =>
    obtain rfl := Option.some.inj hxs
    exact List.forall_mem_map.2 fun _ _ => rfl
  | str s =>
    obtain rfl := Option.some.inj hxs
    exact List.forall_mem_map.2 fun _ _ => rfl
  | _ => cases hxs

theorem isWritable_zero : (int 0).isWritable = true := Text.isWritable_iff.2 (by decide)

end Datum

theorem ClassFile.isWritable_initialOf {type : Json} {v : Value} (h : initialOf type = .ok v) :
    v.toDatum.isWritable = true := by
  rcases initialOf_eq_ok h with ⟨element, rfl⟩ | ⟨base, rfl⟩
  · rfl
  · unfold initial
    split
    · exact Datum.isWritable_zero
    · rfl
    · rfl
    · rfl

/-- The fields of a new object are empty or zero. -/
theorem Library.isWritable_newObject {lib : Library} {name : ClassName} {v : Value}
    (h : lib.newObject name = .ok v) :
    v.content.isWritable = true := by
  obtain ⟨es, rfl, hes⟩ :=
    newObject_eq_ok (P := (·.isWritable = true)) (fun _ _ => ClassFile.isWritable_initialOf) h
  exact Datum.areWritableEntries_iff.2 hes

namespace Heap

/-- No entry is too long to be written. -/
def IsWritable (h : Heap) : Prop := ∀ e ∈ h.entries, e.2.content.isWritable = true

variable {h : Heap} {r : Int} {v : Value}

theorem IsWritable.empty : Heap.empty.IsWritable := by simp [IsWritable, Heap.empty]

theorem IsWritable.get? (hh : h.IsWritable) (hv : h.get? r = some v) :
    v.content.isWritable = true := by
  obtain ⟨es⟩ := h
  change es.lookup r = some v at hv
  change ∀ e ∈ es, e.2.content.isWritable = true at hh
  obtain ⟨front, back, rfl, -⟩ := List.lookup_eq_some_iff.1 hv
  exact hh (r, v) (by simp)

theorem IsWritable.put (hh : h.IsWritable) (hv : v.content.isWritable = true) :
    (h.put r v).IsWritable :=
  (forall_put (P := fun v => v.content.isWritable = true) hh r v).2 hv

theorem IsNumbered.le_of_persists {h' : Heap} {n m : Nat} (hn : h.IsNumbered n)
    (hm : h'.IsNumbered m) (hp : h.Persists h') : n ≤ m := by
  cases n with
  | zero => exact Nat.zero_le m
  | succ k =>
    obtain ⟨v, hv⟩ := mem_keys.1 (hn.mem_iff (r := k) |>.2 (by omega))
    obtain ⟨w, hw, -⟩ := hp k v hv
    have := (hm.mem_iff.1 (mem_keys.2 ⟨w, hw⟩)).2
    omega

end Heap

theorem State.isWritable_iff {s : State} :
    s.isWritable = true ↔ (∀ v ∈ s.frame.stack, v.content.isWritable = true) ∧ s.heap.IsWritable ∧
      ∀ e ∈ s.frame.locals, e.2.content.isWritable = true := by
  simp [State.isWritable, Heap.IsWritable, and_assoc]

namespace Machine

open Heap

theorem isWritable_row (type : Ty) (n : Int) :
    (Value.ofArray type (zeros n)).content.isWritable = true :=
  Datum.areWritable_iff.2 fun x hx => by
    rw [List.eq_of_mem_replicate hx]
    exact Datum.isWritable_zero

section Matrix

variable {h : Heap} {n : Nat}

theorem isWritable_putRows (hh : h.IsWritable) {row : Value} (hrow : row.content.isWritable = true)
    (k : Nat) (r : Int) :
    (putRows row k r h).IsWritable := by
  induction k generalizing r h with
  | zero => exact hh
  | succ k ih => exact ih (hh.put hrow) (r + 1)

theorem isWritable_putMatrix (hn : h.IsNumbered n) (hh : h.IsWritable) (type : Ty) {rows : Nat}
    (columns : Int) (hbound : n + (rows + 1) ≤ Text.writeBound) :
    (putMatrix type rows columns h).IsWritable := by
  refine (isWritable_putRows hh (isWritable_row type columns) _ _).put ?_
  refine Datum.areWritable_iff.2 (List.forall_mem_map.2 fun i hi => ?_)
  have hi := List.mem_range.1 hi
  have hnumber : h.next + 1 + (i : Int) = ((n + 1 + i : Nat) : Int) := by
    rw [hn.next_eq]
    omega
  rw [hnumber]
  exact Text.isWritable_ofNat (by omega)

end Matrix

section Step

variable {lib : Library} {off : Bool} {s t : State} {n : Nat}

theorem isWritable_new {owner : Label} (hs : s.heap.IsWritable) :
    Leads (new lib s owner) fun t => t.heap.IsWritable := by
  refine .bind fun _ _ => .ite (fun _ => .ended) fun _ => ?_
  exact .bind fun v hv => .running (hs.put (Library.isWritable_newObject hv))

theorem isWritable_newArray {type : Ty} (hs : s.heap.IsWritable) :
    Leads (newArray s type) fun t => t.heap.IsWritable :=
  .bind fun _ _ => .bind fun _ _ => .bind fun _ _ => .bind fun _ _ =>
    .running (hs.put (isWritable_row _ _))

/-- An element that is stored comes from the stack, the others were in the heap. -/
theorem isWritable_arrayStore {type : Ty} (hs : s.isWritable = true) :
    Leads (arrayStore s type) fun t => t.heap.IsWritable := by
  obtain ⟨hstack, hheap, -⟩ := State.isWritable_iff.1 hs
  refine .bind fun ⟨v, f₁⟩ hv => .bind fun _ _ => .bind fun _ _ => .ite (fun _ => .ended) fun _ =>
    .bind fun _ _ => .bind fun _ _ => .bind fun i _ => .ite (fun _ => .ended) fun _ =>
    .bind fun ⟨ref, old⟩ hfetch => .bind fun xs hxs => .ite (fun _ => .ended) fun _ =>
      .bind fun _ _ => .running ?_
  have hstored : v.content.isWritable = true := hstack v (by simp [(Frame.pop_eq_ok hv).1])
  have hold : old.content.isWritable = true := hheap.get? (Heap.fetch_eq_ok hfetch).2
  refine hheap.put (Datum.areWritable_iff.2 fun x hx => ?_)
  rcases List.mem_or_eq_of_mem_set hx with hx | rfl
  · exact Datum.isWritable_of_elements? (elements_eq_ok.1 hxs) hold x hx
  · exact hstored

theorem isWritable_putField {field : FieldRef} (hs : s.isWritable = true) :
    Leads (putField s field) fun t => t.heap.IsWritable := by
  obtain ⟨hstack, hheap, -⟩ := State.isWritable_iff.1 hs
  refine .bind fun ⟨v, f₁⟩ hv => .bind fun _ _ => .ite (fun _ => .lost) fun _ =>
    .bind fun ⟨ref, old⟩ hfetch => ?_
  have hstored : v.toDatum.isWritable = true := hstack v (by simp [(Frame.pop_eq_ok hv).1])
  have hold : old.content.isWritable = true := hheap.get? (Heap.fetch_eq_ok hfetch).2
  dsimp only
  split
  next es hes =>
    rw [hes] at hold
    refine .running (hheap.put (Datum.areWritableEntries_iff.2 ?_))
    exact ClassFile.forall_setEntry (P := (·.isWritable = true)) hstored
      (Datum.areWritableEntries_iff.1 hold) _
  next => exact .running hheap

/-- A step leaves a heap that can be written, unless the numbers of its entries have become too
long. -/
theorem step_isWritable (hn : s.heap.IsNumbered n) (h : step lib off s = .ok (.running t))
    (hbound : t.heap.entries.length ≤ Text.writeBound) : t.heap.IsWritable := by
  obtain ⟨⟨offset, op⟩, hi, h'⟩ := bind_eq_ok.1 h
  obtain ⟨_, _, hexec⟩ := bind_eq_ok.1 h'
  split at hexec
  next hw =>
    have hs := (State.isWritable_iff.1 hw).2.1
    cases leads_exec _ t hexec with
    | frame hnew hcall f => exact hs
    | pass h => exact hs
    | call hop hpop locals => exact hs
    | ret hcallers => exact hs
    | retValue hcallers hst => exact hs
    | alloc hop v f =>
      rcases hop with ⟨owner, rfl⟩ | ⟨type, d, rfl, hd⟩
      · exact isWritable_new hs _ hexec
      · exact Leads.ite (fun _ => isWritable_newArray hs) (fun hne => absurd hd hne) _ hexec
    | matrix hd type rows columns f =>
      obtain ⟨-, hnumbered⟩ := changes_putMatrix hn type rows columns none
      rw [hnumbered.length_eq] at hbound
      exact isWritable_putMatrix hn hs type columns hbound
    | store hr hold hsize hnew hcall f =>
      -- only two instructions have a target
      cases op with
      | arrayStore type => exact isWritable_arrayStore hw _ hexec
      | put isStatic field =>
        cases isStatic with
        | false => exact isWritable_putField hw _ hexec
        | true => cases hexec
      | _ => cases hr
  next => cases hexec

end Step

section Construct

variable {lib : Library} {off : Bool} {s : State} {n height left : Nat} {heap : Heap}

theorem construct_heap (hn : s.heap.IsNumbered n) (h : construct lib off height left s = .ok heap) :
    s.heap.Persists heap ∧ ∃ m, heap.IsNumbered m := by
  -- of which input the constructor is run does not matter
  have hreach : Reaches lib off s.frame.place.method ""
      (.constructing 0 [] ⟨s.heap, s.frame, []⟩ (.ofInt 0) height left s)
      _ := reaches_construct h
  exact heap_of_reaches hreach hn

theorem construct_isWritable (hn : s.heap.IsNumbered n) (hs : s.heap.IsWritable)
    (h : construct lib off height left s = .ok heap)
    (hbound : heap.entries.length ≤ Text.writeBound) :
    heap.IsWritable := by
  induction left generalizing s n with
  | zero =>
    obtain rfl := Except.ok.inj h
    exact hs
  | succ left ih =>
    obtain ⟨o, ho, h⟩ := bind_eq_ok.1 h
    cases o with
    | running t =>
      obtain ⟨i, hi, -⟩ := Change.of_step ho
      obtain ⟨fresh, -, -, ht⟩ := step_heap hi hn ho
      dsimp only at h
      split at h
      next =>
        obtain rfl := Except.ok.inj h
        exact step_isWritable hn ho hbound
      next =>
        -- the heap only grows, so the bound on the last one is a bound on this one
        obtain ⟨hpersists, m, hm⟩ := construct_heap ht h
        have hle := ht.le_of_persists hm hpersists
        rw [hm.length_eq] at hbound
        exact ih ht (step_isWritable hn ho (by rw [ht.length_eq]; omega)) h
    | ended e =>
      obtain rfl := Except.ok.inj h
      exact hs
    | lost reason => cases h

end Construct

end Machine

end Assay
