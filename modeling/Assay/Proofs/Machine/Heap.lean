import Mathlib.Data.List.Nodup
import Mathlib.Logic.Relation
import Assay.Proofs.Machine.Change
import Assay.Proofs.Machine.Integer

/-!
# The heap over a whole run

`IsNumbered`: the numbers of a heap are 0, 1, … without a gap. It makes the two ways of choosing a
new number agree, the one after the largest and the count of the entries. `Changes` is what one step
may do to a heap, and `Persists` what any number of steps leaves of it. A run is followed from its
preparation on (`Point`, `Next`), so that the constructors of its inputs are part of it.
-/

namespace Assay

namespace Heap

/-- The numbers in use, in order of insertion. -/
def keys (h : Heap) : List Int := h.entries.map Prod.fst

/-- The numbers in use are those below `n`, each of them once. -/
def IsNumbered (h : Heap) (n : Nat) : Prop := h.keys.Perm ((List.range n).map Int.ofNat)

/-- An array stays an array of the same length. -/
def KeepsSize (v w : Value) : Prop :=
  ∀ xs, v.array? = some xs → ∃ ys, w.array? = some ys ∧ ys.length = xs.length

def Persists (h h' : Heap) : Prop :=
  ∀ r v, h.get? r = some v → ∃ w, h'.get? r = some w ∧ KeepsSize v w

/-- Entries are added under fresh numbers, and at most the target changes. -/
structure Changes (h h' : Heap) (target : Option Int) (fresh : List Int) : Prop where
  keys : h'.keys = h.keys ++ fresh
  unused : ∀ r ∈ fresh, h.get? r = none
  nodup : fresh.Nodup
  keeps : ∀ r v, h.get? r = some v → target ≠ some r → h'.get? r = some v
  persists : h.Persists h'

variable {h h' : Heap} {r : Int} {v : Value} {n : Nat}

theorem mem_keys : r ∈ h.keys ↔ ∃ v, h.get? r = some v := by
  obtain ⟨es⟩ := h
  show r ∈ es.map Prod.fst ↔ ∃ v, es.lookup r = some v
  induction es with
  | nil => simp
  | cons e es ih =>
    obtain ⟨k, w⟩ := e
    rw [Locals.lookup_cons, List.map_cons, List.mem_cons, ih]
    by_cases hr : r = k
    · simp [hr]
    · simp [hr]

theorem get?_eq_none : h.get? r = none ↔ r ∉ h.keys := by
  rw [mem_keys, Option.eq_none_iff_forall_ne_some, not_exists]

theorem keys_put_of_mem (hr : r ∈ h.keys) (v : Value) : (h.put r v).keys = h.keys := by
  obtain ⟨es⟩ := h
  show (putIn r v es).map Prod.fst = es.map Prod.fst
  change r ∈ es.map Prod.fst at hr
  induction es with
  | nil => simp at hr
  | cons e es ih =>
    obtain ⟨k, w⟩ := e
    by_cases hk : k = r
    · simp [putIn, hk]
    · have hmem : r ∈ es.map Prod.fst := (List.mem_cons.1 hr).resolve_left (Ne.symm hk)
      simp [putIn, hk, ih hmem]

theorem keys_put_of_not_mem (hr : r ∉ h.keys) (v : Value) : (h.put r v).keys = h.keys ++ [r] := by
  obtain ⟨es⟩ := h
  show (putIn r v es).map Prod.fst = es.map Prod.fst ++ [r]
  change r ∉ es.map Prod.fst at hr
  induction es with
  | nil => rfl
  | cons e es ih =>
    obtain ⟨k, w⟩ := e
    obtain ⟨hk, hmem⟩ : r ≠ k ∧ r ∉ es.map Prod.fst := by simpa using hr
    simp [putIn, Ne.symm hk, ih hmem]

theorem next_eq_of_max? {m : Int} (hm : h.keys.max? = some m) : h.next = m + 1 := by
  unfold keys at hm
  unfold next
  cases hk : h.entries.map Prod.fst with
  | nil => simp [hk] at hm
  | cons r rs =>
    rw [hk, List.max?_cons'] at hm
    exact congrArg (· + 1) (Option.some.inj hm)

theorem KeepsSize.refl (v : Value) : KeepsSize v v := fun xs hxs => ⟨xs, hxs, rfl⟩

theorem Persists.refl (h : Heap) : h.Persists h := fun _ v hv => ⟨v, hv, .refl v⟩

theorem Persists.trans {h'' : Heap} (h₁ : h.Persists h') (h₂ : h'.Persists h'') :
    h.Persists h'' := by
  intro r v hv
  obtain ⟨w, hw, hvw⟩ := h₁ r v hv
  obtain ⟨u, hu, hwu⟩ := h₂ r w hw
  refine ⟨u, hu, fun xs hxs => ?_⟩
  obtain ⟨ys, hys, hlen⟩ := hvw xs hxs
  obtain ⟨zs, hzs, hlen'⟩ := hwu ys hys
  exact ⟨zs, hzs, hlen'.trans hlen⟩

namespace IsNumbered

theorem empty : Heap.empty.IsNumbered 0 := .nil

theorem mem_iff (hn : h.IsNumbered n) : r ∈ h.keys ↔ 0 ≤ r ∧ r < n := by
  rw [List.Perm.mem_iff hn, List.mem_map]
  constructor
  · rintro ⟨k, hk, rfl⟩
    have := List.mem_range.1 hk
    exact ⟨Int.natCast_nonneg k, by simpa using this⟩
  · rintro ⟨h0, hlt⟩
    exact ⟨r.toNat, List.mem_range.2 (by omega), Int.toNat_of_nonneg h0⟩

theorem next_eq (hn : h.IsNumbered n) : h.next = n := by
  cases n with
  | zero =>
    have hk : h.keys = [] := List.perm_nil.1 hn
    have he : h.entries = [] := List.map_eq_nil_iff.1 hk
    simp [Heap.next, he]
  | succ m =>
    have hmax : h.keys.max? = some (m : Int) := by
      rw [List.max?_eq_some_iff]
      refine ⟨hn.mem_iff.2 (by omega), fun b hb => ?_⟩
      have := (hn.mem_iff.1 hb).2
      omega
    rw [next_eq_of_max? hmax]
    push_cast
    rfl

theorem length_eq (hn : h.IsNumbered n) : h.entries.length = n := by
  have hlen := List.Perm.length_eq hn
  simpa [keys] using hlen

end IsNumbered

/-- The numbers from `n` on, so many of them. -/
def block (n k : Nat) : List Int := (List.range k).map fun (i : Nat) => (n : Int) + i

theorem mem_block {k : Nat} : r ∈ block n k ↔ n ≤ r ∧ r < n + k := by
  unfold block
  rw [List.mem_map]
  constructor
  · rintro ⟨i, hi, rfl⟩
    have := List.mem_range.1 hi
    omega
  · rintro ⟨hle, hlt⟩
    exact ⟨(r - n).toNat, List.mem_range.2 (by omega), by omega⟩

theorem nodup_block (n k : Nat) : (block n k).Nodup :=
  List.nodup_range.map fun i j h => by
    have : (n : Int) + i = n + j := h
    omega

theorem block_succ (n k : Nat) : block n (k + 1) = (n : Int) :: block (n + 1) k := by
  simp [block, List.range_succ_eq_map, Function.comp_def, Int.add_assoc, Int.add_comm 1]

theorem Changes.put_old {old new : Value} (hold : h.get? r = some old) (hsize : KeepsSize old new) :
    h.Changes (h.put r new) (some r) [] where
  keys := by rw [keys_put_of_mem (mem_keys.2 ⟨old, hold⟩), List.append_nil]
  unused := by simp
  nodup := .nil
  keeps k v hv hk := by
    have hne : k ≠ r := fun e => hk (e ▸ rfl)
    rw [get?_put_of_ne h new hne, hv]
  persists k v hv := by
    by_cases hk : k = r
    · subst hk
      obtain rfl := Option.some.inj (hold.symm.trans hv)
      exact ⟨new, get?_put h k new, hsize⟩
    · exact ⟨v, by rw [get?_put_of_ne h new hk, hv], .refl v⟩

theorem Changes.refl (h : Heap) (target : Option Int) : h.Changes h target [] where
  keys := by simp
  unused := by simp
  nodup := .nil
  keeps _ _ hv _ := hv
  persists := .refl h

/-- Entries that are added under the next numbers, in any order, change no other entry and leave no
gap. -/
theorem IsNumbered.extend {fresh : List Int} (hn : h.IsNumbered n) (hk : h'.keys = h.keys ++ fresh)
    (hf : fresh.Perm (block n fresh.length)) (hget : ∀ r, r ∉ fresh → h'.get? r = h.get? r)
    (target : Option Int) : h.Changes h' target fresh ∧ h'.IsNumbered (n + fresh.length) := by
  have hfresh : ∀ r ∈ fresh, r ∉ h.keys := by
    intro r hr hmem
    have hlow := (mem_block.1 (hf.mem_iff.1 hr)).1
    have hhigh := (hn.mem_iff.1 hmem).2
    omega
  have hkeeps : ∀ r v, h.get? r = some v → h'.get? r = some v := by
    intro r v hv
    rw [hget r fun hr => hfresh r hr (mem_keys.2 ⟨v, hv⟩), hv]
  constructor
  · exact ⟨hk, fun r hr => get?_eq_none.2 (hfresh r hr), hf.nodup_iff.2 (nodup_block n _),
      fun r v hv _ => hkeeps r v hv, fun r v hv => ⟨v, hkeeps r v hv, .refl v⟩⟩
  · unfold IsNumbered
    rw [hk, List.range_add, List.map_append, List.map_map]
    exact List.Perm.append hn hf

theorem IsNumbered.put_next (hn : h.IsNumbered n) (v : Value) (target : Option Int) :
    h.Changes (h.put n v) target [(n : Int)] ∧ (h.put n v).IsNumbered (n + 1) := by
  have hout : (n : Int) ∉ h.keys := fun hmem => by
    have := (hn.mem_iff.1 hmem).2
    omega
  refine hn.extend (keys_put_of_not_mem hout v) (by simp [block]) (fun k hk => ?_) target
  exact get?_put_of_ne h v (by simpa using hk)

end Heap

namespace Machine

open Heap

section Rows

variable {h : Heap} {n : Nat}

theorem keys_putRows (row : Value) {k m : Nat} (hm : ∀ r ∈ block m k, r ∉ h.keys) :
    (putRows row k m h).keys = h.keys ++ block m k := by
  induction k generalizing m h with
  | zero => simp [putRows, block]
  | succ k ih =>
    rw [block_succ, List.forall_mem_cons] at hm
    have hkeys := keys_put_of_not_mem hm.1 row
    have hrest : ∀ r ∈ block (m + 1) k, r ∉ (h.put m row).keys := by
      intro r hr
      have := (mem_block.1 hr).1
      rw [hkeys, List.mem_append, List.mem_singleton, not_or]
      exact ⟨hm.2 r hr, by omega⟩
    have := ih hrest
    rw [hkeys, List.append_assoc] at this
    rw [block_succ]
    exact this

theorem get?_putRows (row : Value) {k m : Nat} {r : Int} (hr : r ∉ block m k) :
    (putRows row k m h).get? r = h.get? r := by
  induction k generalizing m h with
  | zero => rfl
  | succ k ih =>
    rw [block_succ, List.mem_cons, not_or] at hr
    rw [← get?_put_of_ne h row hr.1]
    exact ih hr.2

/-- The rows get the numbers after that of the outer array. -/
theorem changes_putMatrix (hn : h.IsNumbered n) (type : Ty) (rows : Nat) (columns : Int)
    (target : Option Int) :
    h.Changes (putMatrix type rows columns h) target (block (n + 1) rows ++ [(n : Int)]) ∧
      (putMatrix type rows columns h).IsNumbered (n + (rows + 1)) := by
  have hrows := keys_putRows (h := h) (.ofArray type (zeros columns)) (k := rows) (m := n + 1)
    fun r hr hmem => by
    have hlow := (mem_block.1 hr).1
    have hhigh := (hn.mem_iff.1 hmem).2
    omega
  have hout :
      (n : Int) ∉ (putRows (.ofArray type (zeros columns)) rows ((n + 1 : Nat) : Int) h).keys := by
    rw [hrows, List.mem_append, not_or, hn.mem_iff, mem_block]
    omega
  -- the outer array is put last, so its number comes after those of its rows
  have hperm : (block (n + 1) rows ++ [(n : Int)]).Perm (block n (rows + 1)) := by
    rw [block_succ]
    exact List.perm_append_singleton _ _
  have hlen : (block (n + 1) rows ++ [(n : Int)]).length = rows + 1 := by simp [block]
  rw [← hlen] at hperm ⊢
  unfold putMatrix
  rw [hn.next_eq]
  refine hn.extend ?_ hperm ?_ target
  · rw [← List.append_assoc, ← hrows]
    exact keys_put_of_not_mem hout _
  · intro r hr
    rw [List.mem_append, List.mem_singleton, not_or] at hr
    rw [get?_put_of_ne _ _ hr.2]
    exact get?_putRows _ hr.1

theorem get?_putMatrix (hn : h.IsNumbered n) (type : Ty) (rows : Nat) (columns : Int) :
    (putMatrix type rows columns h).get? n =
      some (.ofArray (.array type) ((block (n + 1) rows).map .int)) := by
  unfold putMatrix
  rw [hn.next_eq, get?_put]
  simp [block, Function.comp_def]

end Rows

/-- The numbers that an instruction gives out, as the state after it shows them: the one on top of
the stack, and for an array of arrays those of its rows. -/
inductive Gives : Op → State → List Int → Prop
  | none {op : Op} (t : State) (h : op.allocates = false) : Gives op t []
  | object (owner : Label) {t : State} {r : Int} (h : t.frame.stack.head? = some (.ofInt r)) :
      Gives (.new owner) t [r]
  | array (type : Ty) {d : Whole} (hd : d.val = 1) {t : State} {r : Int}
      (h : t.frame.stack.head? = some (.ofInt r)) : Gives (.newArray type d) t [r]
  | matrix {type : Ty} {d : Whole} (hd : d.val = 2) {t : State} {r : Int} {rows : List Int}
      (h : t.frame.stack.head? = some (.ofInt r))
      (hrows : t.heap.get? r = some (.ofArray (.array type) (rows.map .int))) :
      Gives (.newArray type d) t (rows ++ [r])

section Step

variable {lib : Library} {off : Bool} {s t : State} {op : Op} {n : Nat}

theorem allocates_of_call? {m : MethodRef} {count : Nat} (h : op.call? = some (m, count)) :
    op.allocates = false := by
  cases op with
  | invokeStatic | invokeVirtual | invokeSpecial => rfl
  | _ => cases h

theorem Change.heap (hc : Change s op t) (hn : s.heap.IsNumbered n) :
    ∃ fresh, Gives op t fresh ∧ s.heap.Changes t.heap (op.target? s.frame.stack) fresh ∧
      t.heap.IsNumbered (n + fresh.length) := by
  cases hc with
  | frame hnew hcall f => exact ⟨[], .none _ hnew, .refl _ _, hn⟩
  | pass h => exact ⟨[], .none _ rfl, .refl _ _, hn⟩
  | call hop hpop locals => exact ⟨[], .none _ (allocates_of_call? hop), .refl _ _, hn⟩
  | ret hs => exact ⟨[], .none _ rfl, .refl _ _, hn⟩
  | retValue hs hst => exact ⟨[], .none _ rfl, .refl _ _, hn⟩
  | alloc hop v f =>
    rw [hn.next_eq]
    refine ⟨[(n : Int)], ?_, hn.put_next v _⟩
    rcases hop with ⟨owner, rfl⟩ | ⟨type, d, rfl, hd⟩
    · exact .object owner rfl
    · exact .array type hd rfl
  | matrix hd type rows columns f =>
    have hlen : (block (n + 1) rows ++ [(n : Int)]).length = rows + 1 := by simp [block]
    obtain ⟨hchange, hnumbered⟩ :=
      changes_putMatrix hn type rows columns (Op.target? (.newArray type _) s.frame.stack)
    refine ⟨_, .matrix hd ?_ (get?_putMatrix hn type rows columns), hchange, hlen ▸ hnumbered⟩
    rw [hn.next_eq]
    rfl
  | store hr hold hsize hnew hcall f =>
    rw [hr]
    refine ⟨[], .none _ hnew, .put_old hold hsize, ?_⟩
    unfold IsNumbered
    rw [keys_put_of_mem (mem_keys.2 ⟨_, hold⟩)]
    exact hn

theorem step_heap {i : Instr} (hi : fetch lib s.frame.place = .ok i) (hn : s.heap.IsNumbered n)
    (h : step lib off s = .ok (.running t)) :
    ∃ fresh, Gives i.op t fresh ∧ s.heap.Changes t.heap (i.op.target? s.frame.stack) fresh ∧
      t.heap.IsNumbered (n + fresh.length) := by
  obtain ⟨j, hj, hc⟩ := Change.of_step h
  obtain rfl := Except.ok.inj (hi.symm.trans hj)
  exact hc.heap hn

end Step

/-- A point of a run with its preparation: between two inputs, inside the constructor of an object
among them, or in the run itself. -/
inductive Point where
  | inputs (index : Nat) (rest : Input) (p : Setup)
  | constructing (index : Nat) (rest : Input) (p : Setup) (object : Value)
      (height left : Nat) (s : State)
  | running (s : State)

namespace Point

def heap : Point → Heap
  | inputs _ _ p => p.heap
  | constructing _ _ _ _ _ _ s => s.heap
  | running s => s.heap

/-- The state in which the machine takes its next step. -/
def state? : Point → Option State
  | inputs .. => none
  | constructing _ _ _ _ _ _ s => some s
  | running s => some s

def first (method : MethodId) (input : Input) : Point :=
  inputs 0 input ⟨.empty, .enter method [], []⟩

end Point

inductive Next (lib : Library) (off : Bool) (method : MethodId) (text : String) :
    Point → Point → Prop
  | plain {index : Nat} {v : Value} {rest : Input} {p q : Setup}
      (hv : ∀ owner, v.type ≠ .object owner) (h : addPlain index v p = .ok q) :
      Next lib off method text (.inputs index (v :: rest) p) (.inputs (index + 1) rest q)
  | enter {index : Nat} {v : Value} {rest : Input} {p : Setup} {owner : ClassName}
      {object : Value} {s : State} (hv : v.type = .object owner)
      (h : enterConstructor lib text index owner p = .ok (object, s)) :
      Next lib off method text (.inputs index (v :: rest) p)
        (.constructing index rest p object s.height constructorSteps s)
  | inside {index : Nat} {rest : Input} {p : Setup} {object : Value}
      {height left : Nat} {s t : State} (h : step lib off s = .ok (.running t))
      (hh : ¬ t.height < height) :
      Next lib off method text (.constructing index rest p object height (left + 1) s)
        (.constructing index rest p object height left t)
  | leave {index : Nat} {rest : Input} {p : Setup} {object : Value}
      {height left : Nat} {s t : State} (h : step lib off s = .ok (.running t))
      (hh : t.height < height) :
      Next lib off method text (.constructing index rest p object height (left + 1) s)
        (.inputs (index + 1) rest (p.withObject method object t.heap))
  | stop {index : Nat} {rest : Input} {p : Setup} {object : Value} {height left : Nat} {s : State}
      (h : left = 0 ∨ ∃ e, step lib off s = .ok (.ended e)) :
      Next lib off method text (.constructing index rest p object height left s)
        (.inputs (index + 1) rest (p.withObject method object s.heap))
  | start {index : Nat} {p : Setup} (h : (State.mk p.heap p.frame []).isWritable = true) :
      Next lib off method text (.inputs index [] p) (.running ⟨p.heap, p.frame, []⟩)
  | step {s t : State} (h : step lib off s = .ok (.running t)) :
      Next lib off method text (.running s) (.running t)

section Run

variable {lib : Library} {off : Bool} {method : MethodId} {text : String}

abbrev Reaches (lib : Library) (off : Bool) (method : MethodId) (text : String) :
    Point → Point → Prop :=
  Relation.ReflTransGen (Next lib off method text)

theorem reaches_construct {index : Nat} {rest : Input} {p : Setup} {object : Value}
    {height left : Nat} {s : State} {heap : Heap} (h : construct lib off height left s = .ok heap) :
    Reaches lib off method text (.constructing index rest p object height left s)
      (.inputs (index + 1) rest (p.withObject method object heap)) := by
  induction left generalizing s with
  | zero =>
    obtain rfl := Except.ok.inj h
    exact .single (.stop (.inl rfl))
  | succ left ih =>
    obtain ⟨o, ho, h⟩ := bind_eq_ok.1 h
    cases o with
    | running t =>
      dsimp only at h
      split at h
      next hlt =>
        obtain rfl := Except.ok.inj h
        exact .single (.leave ho hlt)
      next hlt => exact .head (.inside ho hlt) (ih h)
    | ended e =>
      obtain rfl := Except.ok.inj h
      exact .single (.stop (.inr ⟨e, ho⟩))
    | lost reason => cases h

theorem reaches_addInput {index : Nat} {v : Value} {rest : Input} {p q : Setup}
    (h : addInput lib off method text index v p = .ok q) :
    Reaches lib off method text (.inputs index (v :: rest) p) (.inputs (index + 1) rest q) := by
  unfold addInput at h
  split at h
  next owner hv =>
    obtain ⟨⟨object, s⟩, henter, h⟩ := bind_eq_ok.1 h
    obtain ⟨heap, hconstruct, h⟩ := bind_eq_ok.1 h
    obtain rfl := Except.ok.inj h
    exact .head (.enter hv henter) (reaches_construct hconstruct)
  next hv => exact .single (.plain hv h)

theorem reaches_addInputs {index : Nat} {input : Input} {p q : Setup}
    (h : addInputs lib off method text index input p = .ok q) :
    ∃ last, Reaches lib off method text (.inputs index input p) (.inputs last [] q) := by
  induction input generalizing index p with
  | nil =>
    obtain rfl := Except.ok.inj h
    exact ⟨index, .refl⟩
  | cons v rest ih =>
    obtain ⟨p', hp', h⟩ := bind_eq_ok.1 h
    obtain ⟨last, hlast⟩ := ih h
    exact ⟨last, (reaches_addInput hp').trans hlast⟩

theorem reaches_start {input : Input} {s : State} (h : start lib off method input text = .ok s) :
    Reaches lib off method text (.first method input) (.running s) := by
  obtain ⟨p, hp, h⟩ := bind_eq_ok.1 h
  obtain ⟨last, hlast⟩ := reaches_addInputs hp
  dsimp only at h
  split at h
  next hw =>
    obtain rfl := Except.ok.inj h
    exact hlast.tail (.start hw)
  next => cases h

variable {n : Nat} {P Q : Point}

/-- An object among the inputs gets the next number. -/
theorem enterConstructor_heap {index : Nat} {owner : ClassName} {p : Setup}
    {object : Value} {s : State} (hn : p.heap.IsNumbered n)
    (h : enterConstructor lib text index owner p = .ok (object, s)) :
    object = .ofInt n ∧ p.heap.Changes s.heap none [(n : Int)] ∧ s.heap.IsNumbered (n + 1) := by
  obtain ⟨v, hv, h⟩ := bind_eq_ok.1 h
  obtain ⟨args, hargs, h⟩ := bind_eq_ok.1 h
  obtain ⟨constructor, hconstructor, h⟩ := bind_eq_ok.1 h
  obtain ⟨o, ho, h⟩ := bind_eq_ok.1 h
  cases o with
  | ended e => cases h
  | lost reason => cases h
  | running t =>
    obtain ⟨rfl, rfl⟩ := Prod.mk.inj (Except.ok.inj h)
    have hheap : t.heap = (p.heap.alloc v).2 := by
      rcases (leads_invokeSpecial constructor.ref false t ho).call_cases rfl with ⟨-, -, rfl⟩ |
        ⟨_, _, _, _, -, rfl⟩
      · rfl
      · rfl
    rw [hheap, Heap.alloc, hn.next_eq]
    exact ⟨rfl, hn.put_next v none⟩

theorem wrap_type {d : Datum} {v : Value} {type : Ty} (h : Value.wrap d = .ok v)
    (hv : v.type = .array type) :
    ∃ xs, d = .tuple xs := by
  cases d with
  | tuple xs => exact ⟨xs, rfl⟩
  | str s =>
    simp only [Value.wrap] at h
    split at h
    · obtain rfl := Except.ok.inj h
      cases hv
    · cases h
  | bool b =>
    obtain rfl := Except.ok.inj h
    cases hv
  | int n =>
    obtain rfl := Except.ok.inj h
    cases hv
  | null =>
    obtain rfl := Except.ok.inj h
    cases hv
  | _ => cases h

/-- So does an array among the inputs; all others leave the heap as it is. -/
theorem addPlain_heap {index : Nat} {v : Value} {p q : Setup} (hn : p.heap.IsNumbered n)
    (h : addPlain index v p = .ok q) :
    (∀ xs, v.content = .tuple xs → q.frame.locals.lookup (index : Int) = some (.ofInt n) ∧
      p.heap.Changes q.heap none [(n : Int)] ∧ q.heap.IsNumbered (n + 1)) ∧
    ((∀ xs, v.content ≠ .tuple xs) → q.heap = p.heap) := by
  obtain ⟨w, hw, h⟩ := bind_eq_ok.1 h
  constructor
  · intro xs hxs
    rw [hxs] at hw
    obtain rfl := Except.ok.inj hw
    obtain rfl := Except.ok.inj h
    rw [hn.length_eq]
    exact ⟨by simp [Locals.lookup_set], hn.put_next _ none⟩
  · intro hxs
    split at h
    next type htype =>
      obtain ⟨xs, hcontent⟩ := wrap_type hw htype
      exact absurd hcontent (hxs xs)
    next =>
      obtain rfl := Except.ok.inj h
      rfl

theorem Next.heap (h : Next lib off method text P Q) (hn : P.heap.IsNumbered n) :
    P.heap.Persists Q.heap ∧ ∃ m, Q.heap.IsNumbered m := by
  have hstep : ∀ {s t : State}, s.heap.IsNumbered n → Machine.step lib off s = .ok (.running t) →
      s.heap.Persists t.heap ∧ ∃ m, t.heap.IsNumbered m := by
    intro s t hs h
    obtain ⟨i, hi, -⟩ := Change.of_step h
    obtain ⟨fresh, -, hchange, hnumbered⟩ := step_heap hi hs h
    exact ⟨hchange.persists, _, hnumbered⟩
  cases h with
  | @plain index v rest p q hv h =>
    obtain ⟨harray, hother⟩ := addPlain_heap hn h
    by_cases hxs : ∃ xs, v.content = .tuple xs
    · obtain ⟨xs, hxs⟩ := hxs
      obtain ⟨-, hchange, hnumbered⟩ := harray xs hxs
      exact ⟨hchange.persists, _, hnumbered⟩
    · have heq := hother fun xs h => hxs ⟨xs, h⟩
      show p.heap.Persists q.heap ∧ ∃ m, q.heap.IsNumbered m
      rw [heq]
      exact ⟨.refl _, n, hn⟩
  | enter hv h =>
    obtain ⟨-, hchange, hnumbered⟩ := enterConstructor_heap hn h
    exact ⟨hchange.persists, _, hnumbered⟩
  | inside h hh => exact hstep hn h
  | leave h hh => exact hstep hn h
  | stop h => exact ⟨.refl _, n, hn⟩
  | start h => exact ⟨.refl _, n, hn⟩
  | step h => exact hstep hn h

/-- Whatever a run goes through later, the heap has persisted and has no gap. -/
theorem heap_of_reaches (h : Reaches lib off method text P Q) (hn : P.heap.IsNumbered n) :
    P.heap.Persists Q.heap ∧ ∃ m, Q.heap.IsNumbered m := by
  induction h with
  | refl => exact ⟨.refl _, n, hn⟩
  | tail _ hnext ih =>
    obtain ⟨hpersists, m, hm⟩ := ih
    obtain ⟨hnow, hnumbered⟩ := hnext.heap hm
    exact ⟨hpersists.trans hnow, hnumbered⟩

end Run

/-- The heap over a whole run, its preparation included. -/
theorem heap_integrity (lib : Library) (off : Bool) (method : MethodId) (input : Input)
    (text : String) :
    (∀ s, start lib off method input text = .ok s →
      Reaches lib off method text (.first method input) (.running s)) ∧
    ∀ P, Reaches lib off method text (.first method input) P →
      (∃ n, P.heap.IsNumbered n) ∧
      (∀ s i t, P.state? = some s → fetch lib s.frame.place = .ok i →
        step lib off s = .ok (.running t) →
        ∃ fresh, Gives i.op t fresh ∧ s.heap.Changes t.heap (i.op.target? s.frame.stack) fresh) ∧
      (∀ index v rest p, P = .inputs index (v :: rest) p →
        (∀ owner object s, enterConstructor lib text index owner p = .ok (object, s) →
          ∃ r, object = .ofInt r ∧ p.heap.Changes s.heap none [r]) ∧
        ∀ q, addPlain index v p = .ok q →
          (∀ xs, v.content = .tuple xs →
            ∃ r, q.frame.locals.lookup (index : Int) = some (.ofInt r) ∧
              p.heap.Changes q.heap none [r]) ∧
          ((∀ xs, v.content ≠ .tuple xs) → q.heap = p.heap)) ∧
      ∀ Q, Reaches lib off method text P Q → P.heap.Persists Q.heap := by
  refine ⟨fun s hs => reaches_start hs, fun P hP => ?_⟩
  obtain ⟨-, n, hn⟩ := heap_of_reaches hP IsNumbered.empty
  refine ⟨⟨n, hn⟩, ?_, ?_, fun Q hQ => (heap_of_reaches hQ hn).1⟩
  · intro s i t hs hi h
    have hheap : P.heap = s.heap := by
      cases P with
      | inputs => cases hs
      | constructing => obtain rfl := Option.some.inj hs; rfl
      | running => obtain rfl := Option.some.inj hs; rfl
    obtain ⟨fresh, hgives, hchange, -⟩ := step_heap hi (hheap ▸ hn) h
    exact ⟨fresh, hgives, hchange⟩
  · rintro index v rest p rfl
    refine ⟨fun owner object s h => ?_, fun q h => ?_⟩
    · obtain ⟨hobject, hchange, -⟩ := enterConstructor_heap hn h
      exact ⟨n, hobject, hchange⟩
    · obtain ⟨harray, hother⟩ := addPlain_heap hn h
      refine ⟨fun xs hxs => ?_, hother⟩
      obtain ⟨hlocal, hchange, -⟩ := harray xs hxs
      exact ⟨n, hlocal, hchange⟩

/-- Makes an array of two arrays, beside the one that it is given. -/
def gridId : MethodId := ⟨⟨"math.Grid"⟩, "make", [.array .int], none⟩

def gridCode : List Instr := [
  .push (.ofInt 2), .push (.ofInt 3), .newArray .int (.int 2), .ret none].map (Instr.mk .null)

def gridState (stack : Stack Value) (n : Nat) : State :=
  ⟨⟨[(0, .ofArray .int [.int 4])]⟩, ⟨[(0, .ofInt 0)], stack, ⟨gridId, n⟩⟩, []⟩

theorem start_grid (lib : Library) :
    start lib false gridId [.ofArray .int [.int 4]] "([I: 4])" = .ok (gridState [] 0) := by
  have hwritable : (gridState [] 0).isWritable = true := by decide +kernel
  have hinputs : addInputs lib false gridId "([I: 4])" 0 [.ofArray .int [.int 4]]
      ⟨.empty, .enter gridId [], []⟩ =
      .ok ⟨(gridState [] 0).heap, (gridState [] 0).frame, []⟩ := rfl
  rw [start, hinputs, ok_bind]
  exact if_pos hwritable

theorem heap_integrity_grid :
    ∃ s t u,
      start (single gridId gridCode) false gridId [.ofArray .int [.int 4]] "([I: 4])" = .ok s ∧
      after (single gridId gridCode) false 2 s = some t ∧
      step (single gridId gridCode) false t = .ok (.running u) ∧
      (∃ fresh, Gives (.newArray .int (.int 2)) u fresh ∧ t.heap.Changes u.heap none fresh) ∧
      (∃ n, u.heap.IsNumbered n) ∧ s.heap.Persists u.heap := by
  let lib := single gridId gridCode
  have h₀ : step lib false (gridState [] 0) = .ok (.running (gridState [.ofInt 2] 1)) :=
    step_single 0 rfl rfl (by simp) (by decide +kernel) rfl
  have h₁ : step lib false (gridState [.ofInt 2] 1) =
      .ok (.running (gridState [.ofInt 3, .ofInt 2] 2)) :=
    step_single 1 rfl rfl (by simp) (by decide +kernel) rfl
  obtain ⟨u, h₂⟩ : ∃ u, step lib false (gridState [.ofInt 3, .ofInt 2] 2) = .ok (.running u) := by
    exact ⟨_, step_single 2 rfl rfl (by simp) (by decide +kernel) rfl⟩
  have hfetch : fetch lib (gridState [.ofInt 3, .ofInt 2] 2).frame.place =
      .ok ⟨.null, .newArray .int (.int 2)⟩ :=
    fetch_single 2 rfl
  obtain ⟨hreach, hall⟩ := heap_integrity lib false gridId [.ofArray .int [.int 4]] "([I: 4])"
  have hs := hreach _ (start_grid lib)
  have ht := (hs.tail (.step h₀)).tail (.step h₁)
  refine ⟨_, _, u, start_grid lib, by rw [after_succ h₀, after_succ h₁]; rfl, h₂, ?_,
    (hall _ (ht.tail (.step h₂))).1, ?_⟩
  · exact (hall _ ht).2.1 _ _ u rfl hfetch h₂
  · exact (hall _ hs).2.2.2 _
      (((Relation.ReflTransGen.single (.step h₀)).tail (.step h₁)).tail (.step h₂))

end Machine

end Assay
