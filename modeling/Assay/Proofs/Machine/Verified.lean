import Mathlib.Data.Set.Insert
import Assay.Proofs.Machine.Integer
import Assay.Proofs.Text

/-!
# Verified integer code

`Verified`: each method of a collection has code in which every instruction is given a height of the
operand stack. The heights agree along fall-through, jumps and calls and suffice for what is popped,
control stays inside the code, and a local variable is read only where every path has set it.
`Safe`: the running frame fits the heights at its instruction, and each waiting frame fits them at
its call once the arguments are taken. A step from a safe state leads to a safe state or ends the
run, unless a number in the running frame is too long to be written to the log, and then it fails.
-/

namespace Assay

namespace Op

/-- How many values an instruction of integer code takes from the stack. -/
def pops : Op → Nat
  | .store .. | .dup _ | .compareZero .. => 1
  | .binary .. | .compare .. => 2
  | .invokeStatic m => m.params.length
  | .ret t => if t.isSome then 1 else 0
  | _ => 0

/-- How many values it leaves there, for a call after its return. -/
def pushes : Op → Nat
  | .push _ | .load .. | .binary .. => 1
  | .dup _ => 2
  | .invokeStatic m => if m.ret.isSome then 1 else 0
  | _ => 0

/-- The local variable that it sets. -/
def writes : Op → Option Int
  | .store _ i | .incr i _ => some i.val
  | _ => none

/-- The offsets at which control can go on in the same method. -/
def nexts (op : Op) (o : Nat) : List Int :=
  match op with
  | .compare _ t | .compareZero _ t => [t.val, o + 1]
  | .goto t => [t.val]
  | .ret _ => []
  | _ => [(o : Int) + 1]

end Op

namespace Machine

/-- The instructions of integer code in a method of a collection. -/
inductive Allowed (ids : Set MethodId) (id : MethodId) : Op → Prop
  | push (n : Int) : Allowed ids id (.push (.ofInt n))
  | load (i : Whole) : Allowed ids id (.load .int i)
  | store (i : Whole) : Allowed ids id (.store .int i)
  | dup {w : Whole} (h : w.val = 1) : Allowed ids id (.dup w)
  | incr (i a : Whole) : Allowed ids id (.incr i a)
  | binary (a : Arith) : Allowed ids id (.binary .int a)
  | compare {c : String} (h : c ∈ Op.conditionWords) (t : Whole) : Allowed ids id (.compare c t)
  | compareZero {c : String} (h : c ∈ Op.conditionWords) (t : Whole) :
      Allowed ids id (.compareZero c t)
  | goto (t : Whole) : Allowed ids id (.goto t)
  | invokeStatic {callee : MethodId} (h : callee ∈ ids) : Allowed ids id (.invokeStatic callee.ref)
  | ret {t : Option Ty} (ht : t = none ∨ t = some .int) (h : t = id.signature.ret) :
      Allowed ids id (.ret t)

/-- Some path from the start of the code to an offset sets these local variables, the parameters
among them. -/
inductive Path (code : List Instr) (params : Nat) : Nat → Set Int → Prop
  | start : Path code params 0 {j | 0 ≤ j ∧ j < params}
  | next {o o' : Nat} {set : Set Int} {i : Instr} (h : Path code params o set)
      (hi : code[o]? = some i) (hn : (o' : Int) ∈ i.op.nexts o) :
        Path code params o' {j | j ∈ set ∨ j ∈ i.op.writes}

/-- A consistent assignment of stack heights to the instructions of a method. -/
structure Heights (ids : Set MethodId) (id : MethodId) (code : List Instr)
    (height : Nat → Nat) : Prop where
  allowed : ∀ i ∈ code, Allowed ids id i.op
  inside : 0 < code.length
  start : height 0 = 0
  enough : ∀ o i, code[o]? = some i → i.op.pops ≤ height o
  agree : ∀ o i, code[o]? = some i → ∀ t : Int, t ∈ i.op.nexts o → ∃ o' : Nat, t = o' ∧
    o' < code.length ∧ height o' = height o - i.op.pops + i.op.pushes
  set : ∀ o s i, Path code id.signature.params.length o s → code[o]? = some i →
      ∀ j ∈ i.op.reads, j ∈ s

/-- Every method of the collection has code with such an assignment. -/
def Verified (lib : Library) (ids : Set MethodId) : Prop :=
  ∀ id ∈ ids, ∃ code height, lib.code id = .ok code ∧ Heights ids id code height

/-- Numbers that fit the heights at an offset, when so many values are taken from the stack. -/
structure Fits (id : MethodId) (code : List Instr) (height : Nat → Nat) (taken o : Nat)
    (v : Ints) : Prop where
  inside : o < code.length
  stack : v.stack.length + taken = height o
  locals : ∃ s, Path code id.signature.params.length o s ∧
    ∀ j ∈ s, (v.locals.lookup j).isSome = true

/-- Frames that wait for a method: each stands at a call, its arguments taken. -/
inductive Waits (lib : Library) (ids : Set MethodId) : MethodId → List Frame → Prop
  | none (id : MethodId) : Waits lib ids id []
  | call {id callee : MethodId} {code : List Instr} {height : Nat → Nat} {o : Nat} {v : Ints}
      {callers : List Frame} {offset : Json} (hcode : lib.code id = .ok code) (hid : id ∈ ids)
      (hh : Heights ids id code height) (hi : code[o]? = some ⟨offset, .invokeStatic callee.ref⟩)
      (hfit : Fits id code height callee.signature.params.length o v)
      (h : Waits lib ids id callers) :
      Waits lib ids callee (v.frame ⟨id, o⟩ :: callers)

inductive Safe (lib : Library) (ids : Set MethodId) : State → Prop
  | mk {id : MethodId} {code : List Instr} {height : Nat → Nat} {o : Nat} {v : Ints}
      {callers : List Frame} (hcode : lib.code id = .ok code) (hid : id ∈ ids)
      (hh : Heights ids id code height) (hfit : Fits id code height 0 o v)
      (hw : Waits lib ids id callers) : Safe lib ids ⟨.empty, v.frame ⟨id, o⟩, callers⟩

section

variable {ids : Set MethodId} {id : MethodId} {code : List Instr} {height : Nat → Nat}
  {o taken : Nat} {op : Op} {v w : Ints} {jumps : Bool} {i : Instr}

theorem Effect.length_eq (h : Effect op v jumps w) :
    w.stack.length + op.pops = v.stack.length + op.pushes := by
  cases h <;> simp [Op.pops, Op.pushes]

theorem Effect.mem_nexts (h : Effect op v jumps w) (id : MethodId) (o : Nat) :
    ((Place.mk id o).follow op jumps).offset ∈ op.nexts o := by
  cases h with
  | @compare c hc t x y st ls =>
    cases compares c x y <;> simp [Op.nexts, Place.follow, Place.advance, Op.target]
  | @compareZero c hc t x st ls =>
    cases compares c x 0 <;> simp [Op.nexts, Place.follow, Place.advance, Op.target]
  | _ => simp [Op.nexts, Place.follow, Place.advance, Op.target]

/-- What was set stays set, and what the instruction sets is set. -/
theorem Effect.isSome_lookup (h : Effect op v jumps w) {j : Int}
    (hj : (v.locals.lookup j).isSome = true ∨ j ∈ op.writes) :
    (w.locals.lookup j).isSome = true := by
  cases h with
  | store i n st ls | incr i a st h =>
    rw [Locals.lookup_set]
    by_cases hji : j = i.val
    · simp [hji]
    · rw [if_neg hji]
      exact hj.resolve_right fun hw => hji (Option.some.inj hw).symm
  | _ => exact hj.resolve_right nofun

theorem exists_cons_cons {l : List Int} (h : 2 ≤ l.length) : ∃ y x st, l = y :: x :: st := by
  match l, h with
  | y :: x :: st, _ => exact ⟨y, x, st, rfl⟩

/-- An instruction of verified code can be carried out. -/
theorem Allowed.progress (ha : Allowed ids id op) (hpops : op.pops ≤ v.stack.length)
    (hreads : ∀ j ∈ op.reads, (v.locals.lookup j).isSome = true) :
    (∃ jumps w, Effect op v jumps w) ∨
    (∃ a x y st, op = .binary .int a ∧ v.stack = y :: x :: st ∧ a.eval x y = none) ∨
    (∃ callee ∈ ids, op = .invokeStatic callee.ref) ∨ ∃ t, op = .ret t ∧ t = id.signature.ret := by
  obtain ⟨stack, locals⟩ := v
  cases ha with
  | push n => exact .inl ⟨_, _, .push n stack locals⟩
  | load i =>
    obtain ⟨n, hn⟩ := Option.isSome_iff_exists.1 (hreads i.val rfl)
    exact .inl ⟨_, _, .load i stack hn⟩
  | store i =>
    obtain ⟨n, st, rfl⟩ := List.exists_cons_of_length_pos hpops
    exact .inl ⟨_, _, .store i n st locals⟩
  | dup h =>
    obtain ⟨n, st, rfl⟩ := List.exists_cons_of_length_pos hpops
    exact .inl ⟨_, _, .dup h n st locals⟩
  | incr i a =>
    obtain ⟨n, hn⟩ := Option.isSome_iff_exists.1 (hreads i.val rfl)
    exact .inl ⟨_, _, .incr i a stack hn⟩
  | binary a =>
    obtain ⟨y, x, st, rfl⟩ := exists_cons_cons hpops
    cases h : a.eval x y with
    | none => exact .inr (.inl ⟨a, x, y, st, rfl, rfl, h⟩)
    | some z => exact .inl ⟨_, _, .binary st locals h⟩
  | compare h t =>
    obtain ⟨y, x, st, rfl⟩ := exists_cons_cons hpops
    exact .inl ⟨_, _, .compare h t x y st locals⟩
  | compareZero h t =>
    obtain ⟨x, st, rfl⟩ := List.exists_cons_of_length_pos hpops
    exact .inl ⟨_, _, .compareZero h t x st locals⟩
  | goto t => exact .inl ⟨_, _, .goto t stack locals⟩
  | invokeStatic h => exact .inr (.inr (.inl ⟨_, h, rfl⟩))
  | ret _ h => exact .inr (.inr (.inr ⟨_, rfl, h⟩))

/-- Numbers that fit fit again at every offset at which control goes on, once the instruction has
popped, pushed and set what it does. -/
theorem Fits.next (hh : Heights ids id code height) (hfit : Fits id code height taken o v)
    (hi : code[o]? = some i) {t : Int} (ht : t ∈ i.op.nexts o)
    (hlen : w.stack.length + i.op.pops = v.stack.length + taken + i.op.pushes)
    (hset : ∀ j, (v.locals.lookup j).isSome = true ∨ j ∈ i.op.writes →
      (w.locals.lookup j).isSome = true) :
    ∃ o' : Nat, t = o' ∧ Fits id code height 0 o' w := by
  obtain ⟨o', rfl, hin, hheight⟩ := hh.agree o i hi t ht
  obtain ⟨s, hpath, hs⟩ := hfit.locals
  refine ⟨o', rfl, hin, ?_, _, hpath.next hi ht, fun j hj => hset j (hj.imp_left (hs j))⟩
  have henough := hh.enough o i hi
  have hstack := hfit.stack
  omega

theorem Fits.effect (hh : Heights ids id code height) (hfit : Fits id code height 0 o v)
    (hi : code[o]? = some i) (he : Effect i.op v jumps w) :
    ∃ o' : Nat, (Place.mk id o).follow i.op jumps = ⟨id, o'⟩ ∧ Fits id code height 0 o' w := by
  obtain ⟨o', ho', hfit'⟩ := hfit.next hh hi (he.mem_nexts id o) he.length_eq fun j =>
    he.isSome_lookup
  refine ⟨o', ?_, hfit'⟩
  rw [← ho']
  cases jumps <;> rfl

theorem Fits.getElem? (hfit : Fits id code height taken o v) : ∃ i, code[o]? = some i :=
  ⟨_, List.getElem?_eq_getElem hfit.inside⟩

/-- A method fits at its start. -/
theorem Fits.start (hh : Heights ids id code height) {args : List Int}
    (hargs : args.length = id.signature.params.length) :
    Fits id code height 0 0 ⟨[], .ofList args⟩ where
  inside := hh.inside
  stack := hh.start.symm
  locals := by
    refine ⟨_, .start, fun j hj => ?_⟩
    obtain ⟨hnonneg, hj⟩ : 0 ≤ j ∧ j < (id.signature.params.length : Int) := hj
    have hlt : j.toNat < args.length := by omega
    rw [Locals.lookup_ofList, if_pos hnonneg, List.getElem?_eq_getElem hlt]
    rfl

end

section Step

variable {lib : Library} {off : Bool} {ids : Set MethodId} {s : State}

/-- A return goes on in the caller behind its call. -/
theorem Waits.resume {callee : MethodId} {caller : Frame} {callers : List Frame}
    (h : Waits lib ids callee (caller :: callers)) {n : Int} :
    Safe lib ids
      ⟨.empty, (if callee.signature.ret.isSome then caller.push (.ofInt n) else caller).advance,
      callers⟩ := by
  cases h with
  | @call id _ code height o v _ offset hcode hid hh hi hfit hw =>
    -- the call has pushed what it returns, if anything, and set no variable of the caller
    have hnext : ∀ w : Ints, w.locals = v.locals →
        w.stack.length = v.stack.length + (Op.invokeStatic callee.ref).pushes →
        Safe lib ids ⟨.empty, (w.frame ⟨id, o⟩).advance, callers⟩ := by
      intro w hl hlen
      obtain ⟨o', ho', hfit'⟩ := hfit.next hh hi (t := (o : Int) + 1) (w := w) (by simp [Op.nexts])
        (by simp only [hlen, Op.pops, MethodId.ref]; omega)
        fun j hj => hl ▸ hj.resolve_right nofun
      have hplace : (w.frame ⟨id, o⟩).advance = w.frame ⟨id, o'⟩ := by
        simp [Ints.frame, Frame.advance, Place.advance, ho']
      rw [hplace]
      exact .mk hcode hid hh hfit' hw
    by_cases hret : callee.signature.ret.isSome = true
    · rw [if_pos hret]
      exact hnext ⟨n :: v.stack, v.locals⟩ rfl (by simp [Op.pushes, MethodId.ref, hret])
    · rw [if_neg hret]
      exact hnext v rfl (by simp [Op.pushes, MethodId.ref, hret])

/-- The endings of safe runs. -/
def endings : List String := ["ok", "divide by zero"]

/-- What a step from a safe state leads to. -/
def SafeOutcome (lib : Library) (ids : Set MethodId) : Outcome → Prop
  | .running t => Safe lib ids t
  | .ended e => e.message ∈ endings
  | .lost _ => False

theorem step_of_heights {id : MethodId} {code : List Instr} {height : Nat → Nat}
    {o : Nat} {v : Ints} {callers : List Frame} {i : Instr} (hcode : lib.code id = .ok code)
    (hh : Heights ids id code height) (hi : code[o]? = some i) :
    step lib off ⟨.empty, v.frame ⟨id, o⟩, callers⟩ =
      if (State.mk .empty (v.frame ⟨id, o⟩) callers).isWritable then
        exec lib off ⟨.empty, v.frame ⟨id, o⟩, callers⟩ i
      else .error Text.tooLong := by
  have hnew : ∀ owner, i.op ≠ .new owner := fun owner he => by
    have hallowed := hh.allowed i (List.mem_of_getElem? hi)
    rw [he] at hallowed
    cases hallowed
  exact step_eq (s := ⟨.empty, v.frame ⟨id, o⟩, callers⟩) (fetch_eq hcode hi) hnew

/-- A step from a safe state is safe, if it can be written to the log. -/
theorem Safe.step (h : Safe lib ids s) (hver : Verified lib ids) (off : Bool)
    (hw : s.isWritable = true) :
    ∃ o, Machine.step lib off s = .ok o ∧ SafeOutcome lib ids o := by
  obtain @⟨id, code, height, o, v, callers, hcode, hid, hh, hfit, hwaits⟩ := h
  obtain ⟨i, hi⟩ := hfit.getElem?
  have hallowed := hh.allowed i (List.mem_of_getElem? hi)
  obtain ⟨set, hpath, hset⟩ := hfit.locals
  have hpops : i.op.pops ≤ v.stack.length := by
    have henough := hh.enough o i hi
    have hstack := hfit.stack
    omega
  have hprogress := hallowed.progress hpops fun j hj => hset j (hh.set o set i hpath hi j hj)
  rw [step_of_heights hcode hh hi, if_pos hw]
  obtain ⟨offset, op⟩ := i
  rcases hprogress with ⟨jumps, w, he⟩ | ⟨a, x, y, st, rfl, hst, hzero⟩ |
    ⟨callee, hcallee, rfl⟩ | ⟨t, rfl, rfl⟩
  · obtain ⟨o', ho', hfit'⟩ := hfit.effect hh hi he
    refine ⟨_, exec_effect offset he, ?_⟩
    rw [ho']
    exact .mk hcode hid hh hfit' hwaits
  · exact ⟨_, exec_divide_by_zero offset hst hzero, by simp [SafeOutcome, endings]⟩
  · -- the caller waits at the call with the arguments taken, which the callee has as its variables
    obtain ⟨code', height', hcode', hh'⟩ := hver callee hcallee
    have hlen : (v.stack.take callee.signature.params.length).length =
        callee.signature.params.length :=
      List.length_take_of_le hpops
    have hsplit := (List.take_append_drop callee.signature.params.length v.stack).symm
    refine ⟨_, exec_invokeStatic offset hsplit hlen, ?_⟩
    refine .mk hcode' hcallee hh' (.start hh' hlen) (.call hcode hid hh hi ?_ hwaits)
    refine ⟨hfit.inside, ?_, set, hpath, hset⟩
    have hstack := hfit.stack
    have hpops' : callee.signature.params.length ≤ v.stack.length := hpops
    simp only [List.length_drop]
    omega
  · cases callers with
    | nil => exact ⟨.ended ⟨"ok", o⟩, rfl, by simp [SafeOutcome, endings]⟩
    | cons caller callers =>
      have htop : id.signature.ret.isSome = true → ∃ st, v.stack = v.stack.headD 0 :: st := by
        intro hret
        have hpos : 1 ≤ v.stack.length := by simpa [Op.pops, hret] using hpops
        obtain ⟨n, st, hst⟩ := List.exists_cons_of_length_pos hpos
        exact ⟨st, by simp [hst]⟩
      exact ⟨_, exec_ret offset caller htop, hwaits.resume⟩

/-- A step from a safe state that can not be written to the log fails. -/
theorem Safe.step_long (h : Safe lib ids s) (hw : s.isWritable = false) :
    Machine.step lib off s = .error Text.tooLong := by
  obtain @⟨id, code, height, o, v, callers, hcode, hid, hh, hfit, hwaits⟩ := h
  obtain ⟨i, hi⟩ := hfit.getElem?
  rw [step_of_heights hcode hh hi, hw]
  rfl

/-- Every state of a run is safe. -/
theorem Safe.after (h : Safe lib ids s) (hver : Verified lib ids) {n : Nat} {t : State}
    (ha : Machine.after lib off n s = some t) : Safe lib ids t := by
  induction n generalizing s with
  | zero =>
    obtain rfl := Option.some.inj ha
    exact h
  | succ n ih =>
    cases hw : s.isWritable with
    | false => simp [Machine.after, h.step_long hw] at ha
    | true =>
      obtain ⟨o, ho, hsafe⟩ := h.step hver off hw
      cases o with
      | running s' => exact ih hsafe (after_succ ho n ▸ ha)
      | ended e => simp [Machine.after, ho] at ha
      | lost reason => exact hsafe.elim

theorem exists_succ_of_long (hw : s.isWritable = true) {n : Nat} {t : State}
    (ht : Machine.after lib off n s = some t) (htw : t.isWritable = false) : ∃ m, n = m + 1 := by
  cases n with
  | zero =>
    obtain rfl := Option.some.inj ht
    rw [hw] at htw
    cases htw
  | succ m => exact ⟨m, rfl⟩

/-- A run of a safe state ends as it should, unless it comes to a state that can not be written. -/
theorem Safe.run (h : Safe lib ids s) (hver : Verified lib ids) (fuel : Nat) :
    ∃ e, Machine.run lib off fuel (.running s) = .ok e ∧
      ((∃ n < fuel, ∃ t, Machine.after lib off n s = some t ∧ t.isWritable = false) →
        e = genericError) ∧
      ((∀ n < fuel, ∀ t, Machine.after lib off n s = some t → t.isWritable = true) →
        e.message ∈ endings ++ ["timeout"]) := by
  induction fuel generalizing s with
  | zero => exact ⟨_, rfl, by simp, fun _ => by simp⟩
  | succ fuel ih =>
    cases hw : s.isWritable with
    | false =>
      refine ⟨genericError, by rw [Machine.run, h.step_long hw], fun _ => rfl, fun hall => ?_⟩
      rw [hall 0 (by omega) s rfl] at hw
      exact Bool.noConfusion hw
    | true =>
      obtain ⟨o, ho, hsafe⟩ := h.step hver off hw
      rw [Machine.run, ho]
      cases o with
      | running s' =>
        obtain ⟨e, he, hlong, hshort⟩ := ih hsafe
        refine ⟨e, he, ?_, fun hall => hshort fun n hn t ht =>
          hall (n + 1) (by omega) t (by rw [after_succ ho, ht])⟩
        rintro ⟨n, hn, t, ht, htw⟩
        obtain ⟨n, rfl⟩ := exists_succ_of_long hw ht htw
        exact hlong ⟨n, by omega, t, by rw [← after_succ ho, ht], htw⟩
      | ended e =>
        refine ⟨e, by cases fuel <;> rfl, ?_, fun _ => List.mem_append_left _ hsafe⟩
        rintro ⟨n, hn, t, ht, htw⟩
        obtain ⟨n, rfl⟩ := exists_succ_of_long hw ht htw
        simp [Machine.after, ho] at ht
      | lost reason => exact hsafe.elim

end Step

section Certificate

variable {ids : Set MethodId} {id : MethodId} {code : List Instr} {height : Nat → Nat}

/-- A certificate for a method: heights, and variables that are set at each offset, which can be
checked instruction by instruction. -/
def Certified (params : Nat) (code : List Instr) (height : Nat → Nat)
    (known : Nat → List Int) : Prop :=
  0 < code.length ∧ height 0 = 0 ∧ (∀ j ∈ known 0, 0 ≤ j ∧ j < params) ∧
  ∀ o : Fin code.length, (code.get o).op.pops ≤ height o ∧
    (∀ j ∈ (code.get o).op.reads, j ∈ known o) ∧
    ∀ t ∈ (code.get o).op.nexts o, 0 ≤ t ∧ t.toNat < code.length ∧
      height t.toNat = height o - (code.get o).op.pops + (code.get o).op.pushes ∧
      ∀ j ∈ known t.toNat, j ∈ known o ∨ j ∈ (code.get o).op.writes

instance (params : Nat) (code : List Instr) (height : Nat → Nat) (known : Nat → List Int) :
    Decidable (Certified params code height known) :=
  inferInstanceAs (Decidable (_ ∧ _))

/-- Every path sets what the certificate says. -/
theorem Path.of_certified {params : Nat} {known : Nat → List Int}
    (h : Certified params code height known) {o : Nat} {s : Set Int} (hp : Path code params o s) :
    ∀ j ∈ known o, j ∈ s := by
  induction hp with
  | start => exact h.2.2.1
  | @next o o' s i _ hi hn ih =>
    intro j hj
    obtain ⟨hlt, rfl⟩ := List.getElem?_eq_some_iff.1 hi
    obtain ⟨-, -, -, hflow⟩ := (h.2.2.2 ⟨o, hlt⟩).2.2 o' hn
    exact (hflow j hj).imp_left (ih j)

theorem Heights.of_certified (hallowed : ∀ i ∈ code, Allowed ids id i.op) {known : Nat → List Int}
    (h : Certified id.signature.params.length code height known) : Heights ids id code height where
  allowed := hallowed
  inside := h.1
  start := h.2.1
  enough o i hi := by
    obtain ⟨hlt, rfl⟩ := List.getElem?_eq_some_iff.1 hi
    exact (h.2.2.2 ⟨o, hlt⟩).1
  agree o i hi t ht := by
    obtain ⟨hlt, rfl⟩ := List.getElem?_eq_some_iff.1 hi
    obtain ⟨hnonneg, hin, hheight, -⟩ := (h.2.2.2 ⟨o, hlt⟩).2.2 t ht
    exact ⟨t.toNat, (Int.toNat_of_nonneg hnonneg).symm, hin, hheight⟩
  set o s i hp hi j hj := by
    obtain ⟨hlt, rfl⟩ := List.getElem?_eq_some_iff.1 hi
    exact hp.of_certified h j ((h.2.2.2 ⟨o, hlt⟩).2.1 j hj)

end Certificate

section Examples

/-- The sum of the numbers up to the parameter, by recursion; the result goes through a variable. -/
def sumId : MethodId := ⟨⟨"math.Sum"⟩, "sum", [.int], some .int⟩

def sumCode : List Instr := [
  .load .int (.int 0), .compareZero "gt" (.int 4), .push (.ofInt 0), .ret (some .int),
  .load .int (.int 0), .load .int (.int 0), .push (.ofInt 1), .binary .int .sub,
  .invokeStatic sumId.ref, .binary .int .add, .store .int (.int 1), .load .int (.int 1),
  .ret (some .int)].map (Instr.mk .null)

theorem verified_sum : Verified (single sumId sumCode) {sumId} := by
  rintro id rfl
  refine ⟨sumCode, fun o => [0, 1, 0, 1, 0, 1, 2, 3, 2, 2, 1, 0, 1].getD o 0, code_single _ _, ?_⟩
  have hcheck : Certified 1 sumCode (fun o => [0, 1, 0, 1, 0, 1, 2, 3, 2, 2, 1, 0, 1].getD o 0)
      (fun o => if o = 11 then [0, 1] else [0]) := by decide
  refine .of_certified ?_ hcheck
  simp only [sumCode, List.map_cons, List.map_nil, List.forall_mem_cons]
  refine ⟨.load _, .compareZero (by decide) _, .push 0, .ret (.inr rfl) rfl, .load _,
    .load _, .push 1, .binary _, .invokeStatic rfl, .binary _, .store _, .load _,
    .ret (.inr rfl) rfl, by simp⟩

/-- The square of the parameter. -/
def squareId : MethodId := ⟨⟨"math.Square"⟩, "square", [.int], some .int⟩

def squareCode : List Instr := [
  .load .int (.int 0), .load .int (.int 0), .binary .int .mul, .ret (some .int)].map
    (Instr.mk .null)

theorem verified_square : Verified (single squareId squareCode) {squareId} := by
  rintro id rfl
  refine ⟨squareCode, fun o => [0, 1, 2, 1].getD o 0, code_single _ _, ?_⟩
  have hcheck : Certified 1 squareCode (fun o => [0, 1, 2, 1].getD o 0) (fun _ => [0]) := by decide
  refine .of_certified ?_ hcheck
  simp only [squareCode, List.map_cons, List.map_nil, List.forall_mem_cons]
  exact ⟨.load _, .load _, .binary _, .ret (.inr rfl) rfl, by simp⟩

/-- The run that squares a number comes to the state with the square on the stack. -/
theorem after_square {n : Int} (hn : Text.isWritable n = true) :
    after (single squareId squareCode) false 3 (startInts squareId [n]) =
      some ⟨.empty, (Ints.mk [n * n] (.ofList [n])).frame ⟨squareId, 3⟩, []⟩ := by
  let lib := single squareId squareCode
  have hcode : lib.code squareId = .ok squareCode := code_single squareId squareCode
  have hlocal : (Locals.ofList [n]).lookup 0 = some n := rfl
  have hw : ∀ stack : List Int, (∀ m ∈ stack, m = n) →
      (Ints.mk stack (.ofList [n])).IsWritable := by
    intro stack hs
    refine ⟨fun m hm => by rw [hs m hm, hn], fun e he => ?_⟩
    obtain rfl : e = (0, n) := by simpa [Locals.ofList] using he
    exact hn
  calc after lib false 3 (startInts squareId [n])
    _ = after lib false 2 ⟨.empty, (Ints.mk [n] (.ofList [n])).frame ⟨squareId, 1⟩, []⟩ :=
      after_succ (step_effect [] (fetch_eq hcode (n := 0) rfl) (hw [] (by simp))
        (.load _ _ hlocal)) 2
    _ = after lib false 1 ⟨.empty, (Ints.mk [n, n] (.ofList [n])).frame ⟨squareId, 2⟩, []⟩ :=
      after_succ (step_effect [] (fetch_eq hcode (n := 1) rfl) (hw [n] (by simp))
        (.load _ _ hlocal)) 1
    _ = some ⟨.empty, (Ints.mk [n * n] (.ofList [n])).frame ⟨squareId, 3⟩, []⟩ :=
      after_succ (step_effect [] (fetch_eq hcode (n := 2) rfl) (hw [n, n] (by simp))
        (.binary _ _ rfl)) 0

end Examples

/-- Verified code starts in a safe state. -/
theorem Verified.safe {lib : Library} {ids : Set MethodId} (hver : Verified lib ids) {id : MethodId}
    (hid : id ∈ ids) {args : List Int} (hargs : args.length = id.signature.params.length) :
    Safe lib ids (startInts id args) := by
  obtain ⟨code, height, hcode, hh⟩ := hver id hid
  exact .mk hcode hid hh (.start hh hargs) (.none id)

/-- A number that can be written is squared, and then the square can not be written. -/
theorem square_fails {k : Nat} (h : k < Text.maxDigits) (hlong : ¬ k + k < Text.maxDigits) :
    ∃ s, after (single squareId squareCode) false 3 (startInts squareId [Nat.pow 10 k]) = some s ∧
      step (single squareId squareCode) false s = .error Text.tooLong := by
  have hrun := after_square ((Text.isWritable_pow_ten k).2 h)
  refine ⟨_, hrun, ((verified_square.safe rfl rfl).after verified_square hrun).step_long ?_⟩
  have hsquare : Nat.pow 10 k * Nat.pow 10 k = Nat.pow 10 (k + k) := (Nat.pow_add 10 k k).symm
  rw [Bool.eq_false_iff, Ne, Ints.isWritable_frame]
  rintro ⟨hstack, -⟩
  have hw := hstack _ (List.mem_singleton.2 rfl)
  rw [← Int.natCast_mul, hsquare, Text.isWritable_pow_ten] at hw
  exact hlong hw

/-- In a run of verified code on numbers, a step fails exactly at a state with a number that is too
long to be written, and the run is a generic error exactly if it comes to such a state. -/
theorem verified_fails_only_at_long_numbers (lib : Library) (ids : Set MethodId)
    (hver : Verified lib ids) (id : MethodId) (hid : id ∈ ids) (args : List Int)
    (hargs : args.length = id.signature.params.length) (off : Bool) :
    (∀ n s, after lib off n (startInts id args) = some s →
      (s.isWritable = true → (∃ t, step lib off s = .ok (.running t)) ∨
        ∃ e, step lib off s = .ok (.ended e)) ∧
      (s.isWritable = false → ∃ e, step lib off s = .error e)) ∧
    ∀ method input, MethodId.decode method = .ok id → Input.decode input = .ok (args.map .ofInt) →
      ∃ e, interpret lib method input off = .ok e ∧
        ((∃ n < runSteps, ∃ s, after lib off n (startInts id args) = some s ∧
          s.isWritable = false) →
          e = genericError) ∧
        ((∀ n < runSteps, ∀ s, after lib off n (startInts id args) = some s → s.isWritable = true) →
          e.message ∈ ["ok", "divide by zero", "timeout"]) := by
  have hsafe := hver.safe hid hargs
  refine ⟨fun n s hs => ⟨fun hw => ?_, fun hw => ⟨_, (hsafe.after hver hs).step_long hw⟩⟩, ?_⟩
  · obtain ⟨o, ho, houtcome⟩ := (hsafe.after hver hs).step hver off hw
    cases o with
    | running t => exact .inl ⟨t, ho⟩
    | ended e => exact .inr ⟨e, ho⟩
    | lost reason => exact houtcome.elim
  · intro method input hmethod hinput
    have hparsed : (do let id ← MethodId.decode method; return (id, ← Input.decode input)) =
        (.ok (id, args.map .ofInt) : Except Fault (MethodId × Input)) := by
      rw [hmethod, ok_bind, hinput]
      rfl
    simp only [interpret, hparsed, start_ints]
    cases hw : (startInts id args).isWritable with
    | false =>
      refine ⟨genericError, rfl, fun _ => rfl, fun hall => ?_⟩
      rw [hall 0 (by decide) _ rfl] at hw
      exact Bool.noConfusion hw
    | true => exact hsafe.run hver runSteps

theorem verified_sum_ends :
    Verified (single sumId sumCode) {sumId} ∧
      ∃ e, interpret (single sumId sumCode) "math.Sum.sum:(I)I" "(5)" false = .ok e ∧
        ((∀ n < runSteps, ∀ s, after (single sumId sumCode) false n (startInts sumId [5]) = some s →
          s.isWritable = true) → e.message ∈ ["ok", "divide by zero", "timeout"]) := by
  obtain ⟨-, hrun⟩ := verified_fails_only_at_long_numbers _ _ verified_sum sumId rfl [5] rfl false
  obtain ⟨e, he, -, hends⟩ := hrun "math.Sum.sum:(I)I" "(5)" (by rfl) (by rfl)
  exact ⟨verified_sum, e, he, hends⟩

/-- The square of a number that can be written may be too long. -/
theorem verified_square_fails :
    Verified (single squareId squareCode) {squareId} ∧
      ∃ s,
        after (single squareId squareCode) false 3 (startInts squareId [Nat.pow 10 2200]) = some s ∧
        step (single squareId squareCode) false s = .error Text.tooLong :=
  ⟨verified_square, square_fails (k := 2200) (by decide) (by decide)⟩

end Machine

end Assay
