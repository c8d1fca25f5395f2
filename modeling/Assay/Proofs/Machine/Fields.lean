import Assay.Machine.Fields
import Assay.Machine.State
import Assay.Proofs.Fallible

/-!
# Entries that are set

Local variables, the heap and the fields of objects are lists of entries, and setting one puts a
single value among them. So whatever holds of all the values before holds of all of them afterwards,
if it holds of the new one. The fields of a new object are set one after the other, each to the
value that its type starts with.
-/

namespace Assay

theorem Locals.forall_set {α : Type} {P : α → Prop} {ls : Locals α} (h : ∀ e ∈ ls, P e.2)
    (i : Int) (x : α) :
    (∀ e ∈ ls.set i x, P e.2) ↔ P x := by
  induction ls with
  | nil => simp [Locals.set]
  | cons e ls ih =>
    obtain ⟨he, hls⟩ := List.forall_mem_cons.1 h
    rw [Locals.set]
    split
    · rw [List.forall_mem_cons]
      exact and_iff_left hls
    · rw [List.forall_mem_cons, ih hls]
      exact and_iff_right he

theorem Heap.forall_put {P : Value → Prop} {h : Heap} (hh : ∀ e ∈ h.entries, P e.2)
    (r : Int) (v : Value) :
    (∀ e ∈ (h.put r v).entries, P e.2) ↔ P v := by
  obtain ⟨es⟩ := h
  change ∀ e ∈ es, P e.2 at hh
  show (∀ e ∈ putIn r v es, P e.2) ↔ P v
  induction es with
  | nil => simp [putIn]
  | cons e es ih =>
    obtain ⟨he, hes⟩ := List.forall_mem_cons.1 hh
    rw [putIn]
    split
    · rw [List.forall_mem_cons]
      exact and_iff_left hes
    · rw [List.forall_mem_cons, ih hes]
      exact and_iff_right he

namespace ClassFile

variable {P : Datum → Prop} {record all : List (String × Datum)}

theorem forall_setEntry {d : Datum} (hd : P d) (h : ∀ e ∈ record, P e.2) (key : String) :
    ∀ e ∈ setEntry key d record, P e.2 := by
  induction record with
  | nil => simpa [setEntry] using hd
  | cons e es ih =>
    obtain ⟨he, hes⟩ := List.forall_mem_cons.1 h
    rw [setEntry]
    split
    · exact List.forall_mem_cons.2 ⟨hd, hes⟩
    · exact List.forall_mem_cons.2 ⟨he, ih hes⟩

/-- A field starts empty if it is an array, and else with the simple value of its type. -/
theorem initialOf_eq_ok {type : Json} {v : Value} (h : initialOf type = .ok v) :
    (∃ element, v = .ofArray element []) ∨ ∃ base, v = initial base := by
  obtain ⟨hasKind, -, h⟩ := bind_eq_ok.1 h
  split at h
  · obtain ⟨kind, -, h⟩ := bind_eq_ok.1 h
    obtain ⟨isArray, -, h⟩ := bind_eq_ok.1 h
    split at h
    · obtain ⟨inner, -, h⟩ := bind_eq_ok.1 h
      obtain ⟨base, -, h⟩ := bind_eq_ok.1 h
      exact .inl ⟨_, (Except.ok.inj h).symm⟩
    · cases h
  · obtain ⟨base, -, h⟩ := bind_eq_ok.1 h
    exact .inr ⟨base, (Except.ok.inj h).symm⟩

theorem forall_addFields (hP : ∀ type v, initialOf type = .ok v → P v.toDatum) {fields : List Json}
    (h : addFields record fields = .ok all) (hrecord : ∀ e ∈ record, P e.2) : ∀ e ∈ all, P e.2 := by
  induction fields generalizing record with
  | nil =>
    obtain rfl := Except.ok.inj h
    exact hrecord
  | cons f fs ih =>
    obtain ⟨isStatic, -, h⟩ := bind_eq_ok.1 h
    dsimp only at h
    split at h
    · exact ih h hrecord
    · obtain ⟨name, -, h⟩ := bind_eq_ok.1 h
      obtain ⟨type, -, h⟩ := bind_eq_ok.1 h
      obtain ⟨v, hv, h⟩ := bind_eq_ok.1 h
      exact ih h (forall_setEntry (hP type v hv) hrecord _)

end ClassFile

theorem Library.newObject_eq_ok {P : Datum → Prop}
    (hP : ∀ type v, ClassFile.initialOf type = .ok v → P v.toDatum) {lib : Library}
    {name : ClassName} {v : Value} (h : lib.newObject name = .ok v) :
    ∃ es, v = ⟨.object name, .record es⟩ ∧ ∀ e ∈ es, P e.2 := by
  obtain ⟨c, -, h⟩ := bind_eq_ok.1 h
  obtain ⟨entry, -, h⟩ := bind_eq_ok.1 h
  obtain ⟨fields, -, h⟩ := bind_eq_ok.1 h
  obtain ⟨record, hrecord, h⟩ := bind_eq_ok.1 h
  exact ⟨record, (Except.ok.inj h).symm, ClassFile.forall_addFields hP hrecord (by simp)⟩

end Assay
