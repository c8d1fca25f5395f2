import Assay.Proofs.Division
import Assay.Proofs.Machine.Change
import Assay.Proofs.Machine.Fields

/-!
# Words

A word is a signed number of 32 bits. `HoldsWords` says that every Int of a state is one: on the
stacks, in the locals and in the heap, there in arrays and in the fields of objects.
-/

namespace Assay

/-- A word is a number of 32 bits, one of them for its sign. -/
def IsWord (n : Int) : Prop := -2147483648 ≤ n ∧ n < 2147483648

instance (n : Int) : Decidable (IsWord n) := inferInstanceAs (Decidable (_ ∧ _))

theorem isWord_fdiv_iff {x y : Int} (hx : IsWord x) (hy : y ≠ 0) :
    IsWord (x.fdiv y) ↔ ¬ (x = -2147483648 ∧ y = -1) := by
  unfold IsWord at hx ⊢
  constructor
  · rintro h ⟨rfl, rfl⟩
    revert h
    decide
  · intro hne
    have hle := Int.natAbs_fdiv_le_natAbs x y
    by_contra hout
    have hq : x.fdiv y = 2147483648 := by omega
    obtain ⟨hsum, hsmall⟩ := IsDivision.fdiv x hy
    rw [hq] at hsum hsmall
    omega

theorem isWord_rem (x : Int) {y : Int} (hy : IsWord y) (hne : y ≠ 0) :
    IsWord (x - x.fdiv y * y) := by
  have hsmall := (IsDivision.fdiv x hne).small
  unfold IsWord at hy ⊢
  omega

/-- A remainder of words is a word, and so is a quotient, but for one. -/
theorem Arith.isWord_eval {a : Arith} {x y z : Int} (hx : IsWord x) (hy : IsWord y)
    (h : a.eval x y = some z) :
    (a = .rem → IsWord z) ∧ (a = .div → (IsWord z ↔ ¬ (x = -2147483648 ∧ y = -1))) := by
  constructor
  · rintro rfl
    simp only [eval] at h
    split at h
    next => cases h
    next hne =>
      obtain rfl := Option.some.inj h
      exact isWord_rem x hy hne
  · rintro rfl
    simp only [eval] at h
    split at h
    next => cases h
    next hne =>
      obtain rfl := Option.some.inj h
      exact isWord_fdiv_iff hx hne

namespace Datum

/-- The whole number in a datum, under whatever type it stands. -/
def number? : Datum → Option Int
  | .value _ d => d.number?
  | d => d.asInt?

/-- The members of a sequence. -/
def members? : Datum → Option (List Datum)
  | .list xs | .tuple xs => some xs
  | _ => none

theorem elements?_of_members? {d : Datum} {xs : List Datum} (h : d.members? = some xs) :
    d.elements? = some xs := by
  cases d with
  | list | tuple => exact h
  | _ => cases h

def IsWord (d : Datum) : Prop := ∃ n, d.number? = some n ∧ Assay.IsWord n

mutual

/-- Every Int in the datum is a word: a number, a member of an array of numbers, a field of an
object. -/
def HoldsWords : Datum → Prop
  | .value t d => (t = .int → d.IsWord) ∧
      (t = .array .int → ∀ xs, d.members? = some xs → ∀ x ∈ xs, x.IsWord) ∧ d.HoldsWords
  | .record es => EntriesHoldWords es
  | _ => True

def EntriesHoldWords : List (String × Datum) → Prop
  | [] => True
  | (_, d) :: es => d.HoldsWords ∧ EntriesHoldWords es

end

theorem entriesHoldWords_iff {es : List (String × Datum)} :
    EntriesHoldWords es ↔ ∀ e ∈ es, e.2.HoldsWords := by
  induction es with
  | nil => simp [EntriesHoldWords]
  | cons e es ih => simp [EntriesHoldWords, ih]

theorem isWord_int {n : Int} : (int n).IsWord ↔ Assay.IsWord n := by
  simp [IsWord, number?, asInt?]

theorem IsWord.holdsWords {d : Datum} (h : d.IsWord) : d.HoldsWords := by
  obtain ⟨n, hn, hword⟩ := h
  fun_induction number? d with
  | case1 t d ih =>
    refine ⟨fun _ => ⟨n, hn, hword⟩, fun _ xs hxs => ?_, ih hn⟩
    cases d with
    | list | tuple => cases hn
    | _ => cases hxs
  | case2 d hd =>
    cases d with
    | value t d => exact absurd rfl (hd t d)
    | record es => cases hn
    | _ => trivial

end Datum

namespace Value

def HoldsWords (v : Value) : Prop := v.toDatum.HoldsWords

theorem holdsWords_int {d : Datum} : HoldsWords ⟨.int, d⟩ ↔ d.IsWord :=
  ⟨fun h => h.1 rfl, fun h => ⟨fun _ => h, nofun, h.holdsWords⟩⟩

theorem holdsWords_ofInt {n : Int} : (ofInt n).HoldsWords ↔ IsWord n :=
  holdsWords_int.trans Datum.isWord_int

theorem HoldsWords.content {v : Value} (h : v.HoldsWords) : v.content.HoldsWords := h.2.2

/-- A value of another type than these has its Ints in its content. -/
theorem holdsWords_of_ne {type : Ty} {d : Datum} (hd : d.HoldsWords) (hint : type ≠ .int)
    (harray : type ≠ .array .int) : HoldsWords ⟨type, d⟩ :=
  ⟨fun h => absurd h hint, fun h => absurd h harray, hd⟩

theorem holdsWords_ofArray {element : Ty} {xs : List Datum}
    (h : element = .int → ∀ x ∈ xs, x.IsWord) :
    (ofArray element xs).HoldsWords := by
  refine ⟨nofun, fun harray ys hys => ?_, trivial⟩
  obtain rfl := Option.some.inj hys
  exact h (Ty.array.inj harray)

theorem HoldsWords.members {v : Value} (hv : v.HoldsWords) {xs : List Datum}
    (hxs : v.content.elements? = some xs) {x : Datum} (hx : x ∈ xs) (hword : ¬ x.IsWord)
    (harray : v.type = .array .int) : v.content.members? = none := by
  cases hm : v.content.members? with
  | none => rfl
  | some ys =>
    obtain rfl : ys = xs := Option.some.inj ((Datum.elements?_of_members? hm).symm.trans hxs)
    exact absurd (hv.2.1 harray ys hm x hx) hword

end Value

theorem mem_of_lookup {α β : Type} [BEq α] [LawfulBEq α] {k : α} {b : β} {es : List (α × β)}
    (h : es.lookup k = some b) : (k, b) ∈ es := by
  obtain ⟨front, back, rfl, -⟩ := List.lookup_eq_some_iff.1 h
  simp

theorem Locals.get_eq_ok {α : Type} {ls : Locals α} {i : Int} {x : α} :
    ls.get i = .ok x ↔ ls.lookup i = some x := by
  unfold Locals.get
  cases List.lookup i ls <;> simp

structure Frame.HoldsWords (f : Frame) : Prop where
  stack : ∀ v ∈ f.stack, v.HoldsWords
  locals : ∀ e ∈ f.locals, e.2.HoldsWords

namespace Frame

variable {f g : Frame} {v : Value}

theorem holdsWords_push (hf : f.HoldsWords) : (f.push v).HoldsWords ↔ v.HoldsWords := by
  constructor
  · intro h
    exact (List.forall_mem_cons.1 h.stack).1
  · intro hv
    exact ⟨List.forall_mem_cons.2 ⟨hv, hf.stack⟩, hf.locals⟩

theorem holdsWords_advance : f.advance.HoldsWords ↔ f.HoldsWords :=
  ⟨fun h => ⟨h.stack, h.locals⟩, fun h => ⟨h.stack, h.locals⟩⟩

theorem holdsWords_set (hf : f.HoldsWords) (i : Int) :
    ({ f with locals := f.locals.set i v } : Frame).HoldsWords ↔ v.HoldsWords := by
  have hset := Locals.forall_set (P := Value.HoldsWords) hf.locals i v
  constructor
  · intro h
    exact hset.1 h.locals
  · intro hv
    exact ⟨hf.stack, hset.2 hv⟩

namespace HoldsWords

variable (hf : f.HoldsWords)

include hf

theorem pop (h : f.pop = .ok (v, g)) : v.HoldsWords ∧ g.HoldsWords := by
  obtain ⟨hstack, hg⟩ := pop_eq_ok h
  have hall := hf.stack
  rw [hstack] at hall
  obtain ⟨hv, hrest⟩ := List.forall_mem_cons.1 hall
  refine ⟨hv, hrest, ?_⟩
  rw [hg]
  exact hf.locals

theorem popMany {n : Nat} {vs : List Value} (h : f.popMany n = .ok (vs, g)) :
    (∀ v ∈ vs, v.HoldsWords) ∧ g.HoldsWords := by
  obtain ⟨-, hstack, hg⟩ := popMany_eq_ok h
  have hall := hf.stack
  rw [hstack] at hall
  refine ⟨fun v hv => hall v (by simp [hv]), fun v hv => hall v (by simp [hv]), ?_⟩
  rw [hg]
  exact hf.locals

theorem lookup {i : Int} (h : f.locals.lookup i = some v) : v.HoldsWords :=
  hf.locals _ (mem_of_lookup h)

end HoldsWords

end Frame

structure State.HoldsWords (s : State) : Prop where
  heap : ∀ e ∈ s.heap.entries, e.2.HoldsWords
  frame : s.frame.HoldsWords
  callers : ∀ f ∈ s.callers, f.HoldsWords

theorem State.HoldsWords.fetch {s : State} (hs : s.HoldsWords) {d : Datum} {r : Int} {v : Value}
    (h : s.heap.fetch d = .ok (r, v)) : v.HoldsWords :=
  hs.heap _ (mem_of_lookup (Heap.fetch_eq_ok h).2)

theorem State.HoldsWords.find {s : State} (hs : s.HoldsWords) {d : Datum} {v : Value}
    (h : s.heap.find d = .ok (some v)) : v.HoldsWords := by
  unfold Heap.find at h
  split at h
  · split at h
    next r hr => exact hs.heap _ (mem_of_lookup (Except.ok.inj h))
    next => cases h
  · cases h

theorem Value.HoldsWords.field {v : Value} (hv : v.HoldsWords) {name : Label} {d : Datum}
    (h : Machine.fieldOf name v.content = .ok d) : d.HoldsWords := by
  have hcontent := hv.content
  unfold Machine.fieldOf at h
  split at h
  next es hes =>
    rw [hes] at hcontent
    split at h
    next found hfound =>
      obtain rfl := Except.ok.inj h
      exact Datum.entriesHoldWords_iff.1 hcontent _ (mem_of_lookup hfound)
    next => cases h
  next => cases h

theorem Value.wrap_ofJson_eq_ok {j : Json} {v : Value} (h : Value.wrap (.ofJson j) = .ok v) :
    v.HoldsWords ∨ ∃ n, v = .ofInt n := by
  cases j with
  | null | bool b =>
    obtain rfl := Except.ok.inj h
    exact .inl (holdsWords_of_ne trivial nofun nofun)
  | int n => exact .inr ⟨n, (Except.ok.inj h).symm⟩
  | str s =>
    simp only [Datum.ofJson, wrap] at h
    split at h
    · obtain rfl := Except.ok.inj h
      exact .inl (holdsWords_of_ne trivial nofun nofun)
    · cases h
  | _ => cases h

namespace ClassFile

theorem holdsWords_initialOf {type : Json} {v : Value} (h : initialOf type = .ok v) :
    v.HoldsWords := by
  rcases initialOf_eq_ok h with ⟨element, rfl⟩ | ⟨base, rfl⟩
  · exact Value.holdsWords_ofArray (by simp)
  · unfold initial
    split
    · exact Value.holdsWords_ofInt.2 (by decide)
    · exact Value.holdsWords_of_ne trivial nofun nofun
    · exact Value.holdsWords_of_ne trivial nofun nofun
    · exact Value.holdsWords_of_ne trivial nofun nofun

/-- A constant of a class that is no word is a number. -/
theorem staticField_eq_ok {c : ClassFile} {name : Json} {v : Value}
    (h : c.staticField name = .ok v) :
    v.HoldsWords ∨ ∃ n, v = .ofInt n := by
  obtain ⟨fields, -, h⟩ := bind_eq_ok.1 h
  obtain ⟨all, -, h⟩ := bind_eq_ok.1 h
  induction all with
  | nil => cases h
  | cons f fs ih =>
    obtain ⟨found, -, h⟩ := bind_eq_ok.1 h
    split at h
    · obtain ⟨j, -, h⟩ := bind_eq_ok.1 h
      exact Value.wrap_ofJson_eq_ok h
    · exact ih h

end ClassFile

theorem Library.holdsWords_newObject {lib : Library} {name : ClassName} {v : Value}
    (h : lib.newObject name = .ok v) :
    v.HoldsWords := by
  obtain ⟨es, rfl, hes⟩ :=
    newObject_eq_ok (P := Datum.HoldsWords) (fun _ _ => ClassFile.holdsWords_initialOf) h
  exact Value.holdsWords_of_ne (Datum.entriesHoldWords_iff.2 hes) nofun nofun

end Assay
