import Mathlib.Data.List.Induction
import Assay.Machine.Run
import Assay.Proofs.Fallible

/-!
# Integer code

The part of the machine that works on numbers alone. `Ints` are the numbers that a frame holds, and
`Effect` says once what each instruction does to them and whether it jumps. A step on a frame of
numbers has that effect, as long as none of the numbers is too long to be written to the log.
-/

namespace Assay

namespace Locals

variable {α β : Type}

theorem lookup_cons (i j : Int) (x : α) (ls : Locals α) :
    List.lookup j ((i, x) :: ls) = if j = i then some x else ls.lookup j := by
  by_cases h : j = i
  · simp [h]
  · have hb : (j == i) = false := by simpa using h
    simp [List.lookup_cons, hb, h]

theorem lookup_set (i j : Int) (x : α) (ls : Locals α) :
    (ls.set i x).lookup j = if j = i then some x else ls.lookup j := by
  induction ls with
  | nil => exact lookup_cons i j x []
  | cons e ls ih =>
    obtain ⟨k, y⟩ := e
    by_cases hk : k = i
    · subst hk
      by_cases hj : j = k <;> simp [Locals.set, lookup_cons, hj]
    · by_cases hj : j = k
      · subst hj
        simp [Locals.set, hk]
      · simp [Locals.set, hk, lookup_cons, hj, ih]

/-- The same variables with other values. -/
def mapValues (f : α → β) (ls : Locals α) : Locals β := ls.map fun e => (e.1, f e.2)

theorem lookup_mapValues (f : α → β) (ls : Locals α) (i : Int) :
    (ls.mapValues f).lookup i = (ls.lookup i).map f := by
  induction ls with
  | nil => rfl
  | cons e ls ih =>
    obtain ⟨k, y⟩ := e
    by_cases h : i = k
    · simp [mapValues, h]
    · simpa [mapValues, lookup_cons, h] using ih

theorem set_mapValues (f : α → β) (ls : Locals α) (i : Int) (x : α) :
    (ls.mapValues f).set i (f x) = (ls.set i x).mapValues f := by
  induction ls with
  | nil => rfl
  | cons e ls ih =>
    obtain ⟨k, y⟩ := e
    by_cases h : k = i
    · simp [mapValues, Locals.set, h]
    · simpa [mapValues, Locals.set, h] using ih

theorem ofList_concat (xs : List α) (x : α) :
    ofList (xs ++ [x]) = ofList xs ++ [((xs.length : Int), x)] := by
  simp [ofList, List.range_succ, List.zip_append]

/-- The variables of a list have its elements by index. -/
theorem lookup_ofList (xs : List α) (i : Int) :
    (ofList xs).lookup i = if 0 ≤ i then xs[i.toNat]? else none := by
  induction xs using List.reverseRecOn with
  | nil => simp [ofList]
  | append_singleton xs x ih =>
    rw [ofList_concat, List.lookup_append, ih, lookup_cons]
    by_cases hi : 0 ≤ i
    · simp only [hi, if_true]
      rw [List.getElem?_append]
      by_cases hlt : i.toNat < xs.length
      · simp [hlt]
      · by_cases heq : i = xs.length
        · simp [heq]
        · have hnone : ([x] : List α)[i.toNat - xs.length]? = none := by
            rw [List.getElem?_eq_none_iff, List.length_singleton]
            omega
          simp [hlt, heq, hnone]
    · have hne : i ≠ xs.length := by omega
      simp [hi, hne]

theorem set_of_lookup_none {ls : Locals α} {i : Int} (h : ls.lookup i = none) (x : α) :
    ls.set i x = ls ++ [(i, x)] := by
  induction ls with
  | nil => rfl
  | cons e ls ih =>
    obtain ⟨k, y⟩ := e
    rw [lookup_cons] at h
    by_cases hk : i = k
    · simp [hk] at h
    · rw [if_neg hk] at h
      simp [Locals.set, Ne.symm hk, ih h]

theorem set_ofList (xs : List α) (x : α) : (ofList xs).set xs.length x = ofList (xs ++ [x]) := by
  have hnone : (ofList xs).lookup (xs.length : Int) = none := by simp [lookup_ofList]
  rw [set_of_lookup_none hnone, ofList_concat]

theorem mem_ofList {xs : List α} {e : Int × α} (h : e ∈ ofList xs) : e.2 ∈ xs := by
  obtain ⟨⟨i, x⟩, hmem, rfl⟩ := List.mem_map.1 h
  exact (List.of_mem_zip hmem).2

theorem ofList_map (f : α → β) (xs : List α) : ofList (xs.map f) = (ofList xs).mapValues f := by
  simp [ofList, mapValues, List.zip_map_right]

end Locals

/-- Where an instruction jumps to, if it does. -/
def Op.target : Op → Int
  | .compare _ t | .compareZero _ t | .goto t => t.val
  | _ => 0

/-- The local variable that an instruction of integer code reads. -/
def Op.reads : Op → Option Int
  | .load _ i | .incr i _ => some i.val
  | _ => none

/-- The place after an instruction that jumps or does not. -/
def Place.follow (p : Place) (op : Op) (jumps : Bool) : Place :=
  if jumps then { p with offset := op.target } else p.advance 1

theorem Place.method_follow (p : Place) (op : Op) (jumps : Bool) :
    (p.follow op jumps).method = p.method := by
  cases jumps <;> rfl

/-- The numbers that a frame holds. -/
structure Ints where
  stack : List Int
  locals : Locals Int

namespace Ints

/-- The frame that holds the numbers, at a place. -/
def frame (v : Ints) (p : Place) : Frame := ⟨v.locals.mapValues .ofInt, v.stack.map .ofInt, p⟩

/-- No number is too long to be written. -/
def IsWritable (v : Ints) : Prop :=
  (∀ n ∈ v.stack, Text.isWritable n = true) ∧ ∀ e ∈ v.locals, Text.isWritable e.2 = true

theorem isWritable_frame (v : Ints) (p : Place) (callers : List Frame) :
    (State.mk .empty (v.frame p) callers).isWritable = true ↔ v.IsWritable := by
  simp [State.isWritable, frame, Heap.empty, Locals.mapValues, IsWritable, Value.ofInt,
    Datum.isWritable]

end Ints

namespace Machine

/-- The comparison of two numbers that a condition asks for. -/
def compares (condition : String) (x y : Int) : Bool :=
  match condition with
  | "eq" => x = y
  | "ne" => x ≠ y
  | "lt" => x < y
  | "le" => x ≤ y
  | "gt" => y < x
  | _ => y ≤ x

theorem holds_int {c : String} (h : c ∈ Op.conditionWords) (x y : Int) :
    holds c (.int x) (.int y) = .ok (compares c x y) := by
  simp only [Op.conditionWords, List.mem_cons, List.not_mem_nil, or_false] at h
  rcases h with rfl | rfl | rfl | rfl | rfl | rfl
  · simp [holds, compares, BEq.beq, Datum.same]
  · simp [holds, compares, bne, BEq.beq, Datum.same]
  all_goals simp [holds, compares, Datum.rel, Datum.asInt?, Rel.onInt]

/-- What an instruction does to the numbers of its frame, and whether it jumps. -/
inductive Effect : Op → Ints → Bool → Ints → Prop
  | push (n : Int) (st : List Int) (ls : Locals Int) :
      Effect (.push (.ofInt n)) ⟨st, ls⟩ false ⟨n :: st, ls⟩
  | load (i : Whole) {n : Int} (st : List Int) {ls : Locals Int} (h : ls.lookup i.val = some n) :
      Effect (.load .int i) ⟨st, ls⟩ false ⟨n :: st, ls⟩
  | store (i : Whole) (n : Int) (st : List Int) (ls : Locals Int) :
      Effect (.store .int i) ⟨n :: st, ls⟩ false ⟨st, ls.set i.val n⟩
  | dup {w : Whole} (h : w.val = 1) (n : Int) (st : List Int) (ls : Locals Int) :
      Effect (.dup w) ⟨n :: st, ls⟩ false ⟨n :: n :: st, ls⟩
  | incr (i a : Whole) {n : Int} (st : List Int) {ls : Locals Int} (h : ls.lookup i.val = some n) :
      Effect (.incr i a) ⟨st, ls⟩ false ⟨st, ls.set i.val (n + a.val)⟩
  | binary {a : Arith} {x y z : Int} (st : List Int) (ls : Locals Int) (h : a.eval x y = some z) :
      Effect (.binary .int a) ⟨y :: x :: st, ls⟩ false ⟨z :: st, ls⟩
  | goto (t : Whole) (st : List Int) (ls : Locals Int) : Effect (.goto t) ⟨st, ls⟩ true ⟨st, ls⟩
  | compare {c : String} (h : c ∈ Op.conditionWords) (t : Whole) (x y : Int) (st : List Int)
      (ls : Locals Int) : Effect (.compare c t) ⟨y :: x :: st, ls⟩ (compares c x y) ⟨st, ls⟩
  | compareZero {c : String} (h : c ∈ Op.conditionWords) (t : Whole) (x : Int) (st : List Int)
      (ls : Locals Int) : Effect (.compareZero c t) ⟨x :: st, ls⟩ (compares c x 0) ⟨st, ls⟩

theorem isInt_ofInt (n : Int) : isInt (.ofInt n) = true := rfl

theorem require_true (expectation : String) : require true expectation = .ok () := rfl

/-- Arithmetic on two numbers gives a number, or stops at a division by zero. -/
theorem binary_eq (s : State) (a : Arith) (x y : Int) (st : Stack Value)
    (h : s.frame.stack = .ofInt y :: .ofInt x :: st) :
    binary s a = .ok (match a.eval x y with
      | some z => go s ({ s.frame with stack := .ofInt z :: st } : Frame).advance
      | none => stop s "divide by zero") := by
  have hpop : s.frame.pop = .ok (.ofInt y, { s.frame with stack := .ofInt x :: st }) := by
    rw [Frame.pop, h]
    rfl
  rw [binary, hpop, ok_bind]
  simp only [Frame.pop, Stack.pop, ok_bind, pure_eq_ok, isInt_ofInt, require_true]
  have hzero : ((Value.ofInt y).content.asInt? == some 0) = decide (y = 0) := by
    rw [Bool.eq_iff_iff]
    simp [Value.ofInt, Datum.asInt?]
  rw [hzero]
  by_cases hdiv : (a.divides && decide (y = 0)) = true
  · have hnone : a.eval x y = none := by
      cases a <;> simp_all [Arith.divides, Arith.eval]
    rw [if_pos hdiv, hnone]
  · have hx : number (Value.ofInt x).content = .ok x := rfl
    have hy : number (Value.ofInt y).content = .ok y := rfl
    rw [if_neg hdiv, hx, hy, ok_bind, ok_bind]
    cases a.eval x y <;> rfl

section Exec

variable {lib : Library} {off : Bool} {heap : Heap} {callers : List Frame} {op : Op} {v w : Ints}
  {p : Place} {jumps : Bool} (o : Json)

theorem exec_effect (h : Effect op v jumps w) :
    exec lib off ⟨heap, v.frame p, callers⟩ ⟨o, op⟩ =
      .ok (.running ⟨heap, w.frame (p.follow op jumps), callers⟩) := by
  cases h with
  | push n st ls => rfl
  | load i st h =>
    simp only [exec, Machine.load, Ints.frame, Locals.get, Locals.lookup_mapValues, h]
    rfl
  | store i n st ls =>
    simp only [exec, Machine.store, Ints.frame, ← Locals.set_mapValues]
    rfl
  | dup h n st ls =>
    simp only [exec, h, if_true]
    rfl
  | incr i a st h =>
    simp only [exec, increment, Ints.frame, Locals.get, Locals.lookup_mapValues, h,
      ← Locals.set_mapValues]
    rfl
  | @binary a x y z st ls h =>
    have hb := binary_eq ⟨heap, Ints.frame ⟨y :: x :: st, ls⟩ p, callers⟩ a x y (st.map .ofInt) rfl
    rw [h] at hb
    exact hb
  | goto t st ls => rfl
  | @compare c hc t x y st ls =>
    simp only [exec, Machine.compare, Ints.frame, List.map_cons, Frame.pop, Stack.pop,
      ok_bind, pure_eq_ok, branch, Value.ofInt, holds_int hc]
    cases compares c x y <;> rfl
  | @compareZero c hc t x st ls =>
    simp only [exec, Machine.compareZero, Ints.frame, List.map_cons, Frame.pop, Stack.pop, ok_bind,
      pure_eq_ok, branch, Value.ofInt, reduceCtorEq, if_false, holds_int hc]
    cases compares c x 0 <;> rfl

theorem exec_divide_by_zero {a : Arith} {x y : Int} {st : List Int} (hst : v.stack = y :: x :: st)
    (h : a.eval x y = none) :
    exec lib off ⟨heap, v.frame p, callers⟩ ⟨o, .binary .int a⟩ =
      .ok (.ended ⟨"divide by zero", p.offset⟩) := by
  have hb := binary_eq ⟨heap, v.frame p, callers⟩ a x y (st.map .ofInt) (by simp [Ints.frame, hst])
  rw [h] at hb
  exact hb

theorem popMany_append (xs : List Value) (f : Frame) (rest : Stack Value)
    (h : f.stack = xs ++ rest) :
    f.popMany xs.length = .ok (xs.reverse, { f with stack := rest }) := by
  induction xs generalizing f with
  | nil =>
    obtain ⟨locals, stack, place⟩ := f
    obtain rfl : stack = rest := h
    rfl
  | cons x xs ih =>
    have hpop : f.pop = .ok (x, { f with stack := xs ++ rest }) := by
      rw [Frame.pop, h]
      rfl
    have hrest := ih { f with stack := xs ++ rest } rfl
    simp only [List.length_cons, Frame.popMany, hpop, ok_bind, hrest]
    simp

/-- A call takes its arguments from the stack, the first from the top. -/
theorem exec_invokeStatic {callee : MethodId} {args st : List Int} (hst : v.stack = args ++ st)
    (h : args.length = callee.signature.params.length) :
    exec lib off ⟨heap, v.frame p, callers⟩ ⟨o, .invokeStatic callee.ref⟩ =
      .ok (.running ⟨heap, (Ints.mk [] (.ofList args)).frame ⟨callee, 0⟩,
        (Ints.mk st v.locals).frame p :: callers⟩) := by
  have hlen : callee.ref.params.length = (args.map Value.ofInt).length := by simp [h, MethodId.ref]
  have hpop :=
    popMany_append (args.map .ofInt) (v.frame p) (st.map .ofInt) (by simp [Ints.frame, hst])
  simp only [exec, invokeStatic]
  rw [hlen, hpop, ok_bind, List.reverse_reverse, call, MethodRef.target?_ref, Locals.ofList_map]
  rfl

/-- A return of a called method takes the top of its stack to the caller, if it has a type. -/
theorem exec_ret {t : Option Ty} {n : Int} (caller : Frame)
    (h : t.isSome = true → ∃ st, v.stack = n :: st) :
    exec lib off ⟨heap, v.frame p, caller :: callers⟩ ⟨o, .ret t⟩ =
      .ok (.running ⟨heap, (if t.isSome then caller.push (.ofInt n) else caller).advance,
        callers⟩) := by
  cases t with
  | none => rfl
  | some t =>
    obtain ⟨st, hst⟩ := h rfl
    simp only [exec, ret, Frame.pop, Ints.frame, hst]
    rfl

end Exec

section Step

variable {lib : Library} {off : Bool}

/-- Only the name of a new object may fail to have a line. -/
theorem exists_line (i : Instr) (h : ∀ owner, i.op ≠ .new owner) : ∃ line, i.line = .ok line := by
  obtain ⟨o, op⟩ := i
  cases op with
  | new owner => exact absurd rfl (h owner)
  | _ => exact ⟨_, rfl⟩

/-- A step fails at the log, or does what the instruction does. -/
theorem step_eq {s : State} {i : Instr} (hfetch : fetch lib s.frame.place = .ok i)
    (h : ∀ owner, i.op ≠ .new owner) :
    step lib off s = if s.isWritable then exec lib off s i else .error Text.tooLong := by
  obtain ⟨line, hline⟩ := exists_line i h
  rw [step, hfetch, ok_bind, hline, ok_bind]

/-- A step on numbers that can be written has the effect of its instruction. -/
theorem step_effect {p : Place} {i : Instr} {v w : Ints} {jumps : Bool} (callers : List Frame)
    (hfetch : fetch lib p = .ok i) (hw : v.IsWritable) (he : Effect i.op v jumps w) :
    step lib off ⟨.empty, v.frame p, callers⟩ =
      .ok (.running ⟨.empty, w.frame (p.follow i.op jumps), callers⟩) := by
  have hnew : ∀ owner, i.op ≠ .new owner := fun owner hop => by
    rw [hop] at he
    cases he
  rw [step_eq (s := ⟨.empty, v.frame p, callers⟩) hfetch hnew,
    if_pos ((v.isWritable_frame p callers).2 hw)]
  exact exec_effect i.offset he

theorem elementAt_nat {α : Type} {xs : List α} {n : Nat} {x : α} (h : xs[n]? = some x) :
    elementAt xs (n : Int) = .ok x := by
  have hn : ¬ (n : Int) < 0 := by omega
  simp [elementAt, hn, h]

theorem mem_of_elementAt {α : Type} {xs : List α} {o : Int} {x : α}
    (h : elementAt xs o = .ok x) : x ∈ xs := by
  simp only [elementAt] at h
  generalize (if o < 0 then o + (xs.length : Int) else o) = k at h
  cases hk : (if k < 0 then none else xs[k.toNat]?) with
  | none => simp [hk] at h
  | some y =>
    rw [hk] at h
    obtain rfl := Except.ok.inj h
    split at hk
    · cases hk
    · exact List.mem_of_getElem? hk

theorem fetch_eq {method : MethodId} {code : List Instr}
    (hcode : lib.code method = .ok code) {n : Nat} {i : Instr} (h : code[n]? = some i) :
    fetch lib ⟨method, n⟩ = .ok i := by
  rw [fetch, hcode, ok_bind, elementAt_nat h]

/-- The state after a number of steps, if the machine still runs then. -/
def after (lib : Library) (off : Bool) : Nat → State → Option State
  | 0, s => some s
  | n + 1, s =>
    match step lib off s with
    | .ok (.running t) => after lib off n t
    | _ => none

theorem after_succ {s t : State} (h : step lib off s = .ok (.running t)) (n : Nat) :
    after lib off (n + 1) s = after lib off n t := by
  rw [after, h]

/-- The state in which a method starts on numbers. -/
def startInts (method : MethodId) (args : List Int) : State :=
  ⟨.empty, (Ints.mk [] (.ofList args)).frame ⟨method, 0⟩, []⟩

end Step

/-- Numbers are put into the local variables one after the other. -/
theorem addInputs_ints (lib : Library) (off : Bool) (method : MethodId) (text : String)
    (args done : List Int) (p : Place) (h : Heap) (objects : List Value) :
    addInputs lib off method text done.length (args.map .ofInt)
        ⟨h, (Ints.mk [] (.ofList done)).frame p, objects⟩ =
      .ok ⟨h, (Ints.mk [] (.ofList (done ++ args))).frame p, objects⟩ := by
  induction args generalizing done with
  | nil => simp [addInputs]
  | cons n args ih =>
    have hadd : addInput lib off method text done.length (.ofInt n)
        ⟨h, (Ints.mk [] (.ofList done)).frame p, objects⟩ =
          .ok ⟨h, (Ints.mk [] (.ofList (done ++ [n]))).frame p, objects⟩ := by
      rw [← Locals.set_ofList]
      simp only [Ints.frame, ← Locals.set_mapValues]
      rfl
    have hrest := ih (done ++ [n])
    rw [List.length_append, List.append_assoc] at hrest
    rw [List.map_cons, addInputs, hadd, ok_bind]
    exact hrest

theorem start_ints (lib : Library) (off : Bool) (method : MethodId) (args : List Int)
    (text : String) :
    start lib off method (args.map .ofInt) text =
      if (startInts method args).isWritable then .ok (startInts method args)
        else .error Text.tooLong := by
  have hadd := addInputs_ints lib off method text args [] ⟨method, 0⟩ .empty []
  rw [start]
  exact congrArg (· >>= _) hadd

/-- A library with one class file, given by its document and its one method. -/
def oneClass (id : MethodId) (document : Json) (code : List Instr) : Library :=
  ⟨[(Suite.classPath id.owner, ⟨document, .ok [{
    document := .null, name := .ok (.str id.signature.name), params := .ok id.signature.params
    instrs := .ok [], code := .ok code }]⟩)]⟩

theorem code_oneClass (id : MethodId) (document : Json) (code : List Instr) :
    (oneClass id document code).code id = .ok code := by
  have hname : (Json.str id.signature.name == Json.str id.signature.name) = true := by
    simp [BEq.beq, Json.same]
  simp [Library.code, Library.method, Library.find, oneClass, ClassFile.method,
    ClassFile.findMethod, hname]

/-- A library with one class file of one method. -/
def single (id : MethodId) (code : List Instr) : Library := oneClass id .null code

theorem code_single (id : MethodId) (code : List Instr) : (single id code).code id = .ok code :=
  code_oneClass id .null code

theorem fetch_single {id : MethodId} {code : List Instr} (n : Nat) {i : Instr}
    (h : code[n]? = some i) : fetch (single id code) ⟨id, n⟩ = .ok i :=
  fetch_eq (code_single id code) h

theorem step_single {id : MethodId} {code : List Instr} {off : Bool} {s : State} {i : Instr}
    {o : Outcome} (n : Nat) (hplace : s.frame.place = ⟨id, n⟩) (hi : code[n]? = some i)
    (hnew : ∀ owner, i.op ≠ .new owner) (hw : s.isWritable = true)
    (h : exec (single id code) off s i = .ok o) :
    step (single id code) off s = .ok o := by
  have hfetch : fetch (single id code) s.frame.place = .ok i := by
    rw [hplace]
    exact fetch_single n hi
  rw [step_eq hfetch hnew, if_pos hw, h]

end Machine

end Assay
