import Assay.Proofs.Machine.Change
import Assay.Proofs.Machine.Integer

/-!
# Calls and returns

A call leaves the caller's frame under the frame of the called method. Until the stack of frames is
back at the height it had before, everything from the caller down stays as the call left it
(`Over`), and the step that brings it back is a return.
-/

namespace Assay

namespace Machine

/-- The frames `caller :: outer` wait, under any number of others. -/
def Over (caller : Frame) (outer : List Frame) (s : State) : Prop :=
  ∃ inner, s.callers = inner ++ caller :: outer

/-- `f` is the caller after a return: it goes on after the call, and if the return has a type, with
the value on top of the stack of `s`. -/
structure Resumed (s : State) (caller : Frame) (type : Option Ty) (f : Frame) : Prop where
  locals : f.locals = caller.locals
  place : f.place = caller.place.advance 1
  nothing : type = none → f.stack = caller.stack
  value : type ≠ none → ∃ v, s.frame.stack.head? = some v ∧ f.stack = v :: caller.stack

theorem Over.height {caller : Frame} {outer : List Frame} {s : State} (h : Over caller outer s) :
    outer.length + 1 < s.height := by
  obtain ⟨inner, hs⟩ := h
  simp only [State.height, hs, List.length_append, List.length_cons]
  omega

section Step

variable {lib : Library} {off : Bool} {s t : State} {op : Op}

/-- A call that is not passed over takes its arguments from the stack and puts a frame on top. -/
theorem Change.of_call {m : MethodRef} {count : Nat} (hc : Change s op t)
    (hop : op.call? = some (m, count))
    (hroot : ∀ isInterface, op = .invokeSpecial m isInterface → isRootConstructor m ≠ .ok true) :
    ∃ args rest, args.length = count ∧ s.frame.stack = args ++ rest ∧
      t.callers = { s.frame with stack := rest } :: s.callers := by
  rcases hc.call_cases hop with ⟨⟨isInterface, hspecial⟩, h, -⟩ |
    ⟨id, args, caller, locals, hpop, rfl⟩
  · exact absurd h (hroot isInterface hspecial)
  · obtain ⟨hlen, hstack, hcaller⟩ := Frame.popMany_eq_ok hpop
    exact ⟨args.reverse, caller.stack, by simpa using hlen, hstack,
      congrArg (· :: s.callers) hcaller⟩

/-- One step above a waiting frame leaves it waiting, or returns to it. -/
theorem Change.over {caller : Frame} {outer : List Frame} (hc : Change s op t)
    (hs : Over caller outer s) :
    Over caller outer t ∨ s.callers = caller :: outer ∧ t.callers = outer ∧
      ∃ type, op = .ret type ∧ Resumed s caller type t.frame := by
  obtain ⟨inner, hs⟩ := hs
  cases hc with
  | @call _ m count id args f hop hpop locals =>
    refine .inl ⟨f :: inner, ?_⟩
    simp [hs]
  | @ret f fs hs' =>
    rw [hs] at hs'
    cases inner with
    | nil =>
      obtain ⟨rfl, rfl⟩ := List.cons.inj hs'
      exact .inr ⟨hs, rfl, none, rfl, rfl, rfl, fun _ => rfl, fun h => absurd rfl h⟩
    | cons g inner =>
      obtain ⟨rfl, rfl⟩ := List.cons.inj hs'
      exact .inl ⟨inner, rfl⟩
  | @retValue type v st f fs hs' hst =>
    rw [hs] at hs'
    cases inner with
    | nil =>
      obtain ⟨rfl, rfl⟩ := List.cons.inj hs'
      exact .inr ⟨hs, rfl, some type, rfl, rfl, rfl, nofun, fun _ => ⟨v, by rw [hst]; rfl, rfl⟩⟩
    | cons g inner =>
      obtain ⟨rfl, rfl⟩ := List.cons.inj hs'
      exact .inl ⟨inner, rfl⟩
  | _ => exact .inl ⟨inner, hs⟩

end Step

section Run

variable {lib : Library} {off : Bool} {s t : State}

theorem after_first {n : Nat} (h : after lib off (n + 1) s = some t) :
    ∃ u, step lib off s = .ok (.running u) ∧ after lib off n u = some t := by
  rw [after] at h
  split at h
  next u hu => exact ⟨u, hu, h⟩
  next => cases h

theorem after_last {n : Nat} (h : after lib off (n + 1) s = some t) :
    ∃ u, after lib off n s = some u ∧ step lib off u = .ok (.running t) := by
  induction n generalizing s with
  | zero =>
    obtain ⟨u, hu, h⟩ := after_first h
    obtain rfl := Option.some.inj h
    exact ⟨s, rfl, hu⟩
  | succ n ih =>
    obtain ⟨u, hu, h⟩ := after_first h
    obtain ⟨w, hw, hstep⟩ := ih h
    exact ⟨w, by rw [after_succ hu, hw], hstep⟩

/-- A run that starts with a frame on top of the caller keeps it waiting while the stack of frames
is higher than before. -/
theorem over_run {caller : Frame} {outer : List Frame} {s₁ : State}
    (hs₁ : step lib off s = .ok (.running s₁)) (hover : Over caller outer s₁) {n : Nat}
    (hheight : ∀ k u, 0 < k → k ≤ n → after lib off k s = some u → u.height ≠ outer.length + 1) :
    ∀ k u, 0 < k → k ≤ n → after lib off k s = some u → Over caller outer u := by
  intro k
  induction k with
  | zero => omega
  | succ k ih =>
    intro u _ hk hu
    obtain ⟨w, hw, hstep⟩ := after_last hu
    rcases Nat.eq_zero_or_pos k with rfl | hpos
    · obtain rfl := Option.some.inj hw
      obtain rfl := Outcome.running.inj (Except.ok.inj (hs₁.symm.trans hstep))
      exact hover
    · obtain ⟨i, -, hc⟩ := Change.of_step hstep
      -- only the return to the caller brings the stack of frames back to its height
      rcases hc.over (ih w hpos (by omega) hw) with hstill | ⟨-, hcallers, -⟩
      · exact hstill
      · exact absurd (by rw [State.height, hcallers]) (hheight (k + 1) u (by omega) hk hu)

end Run

/-- A called method gives back what it found: until the stack of frames is back at its height, the
caller waits unchanged over the frames below it, and then it goes on after the call, with the
arguments replaced by the result. -/
theorem call_returns {lib : Library} {off : Bool} {s t : State} {i : Instr} {m : MethodRef}
    {count n : Nat} (hi : fetch lib s.frame.place = .ok i) (hop : i.op.call? = some (m, count))
    (hroot : ∀ isInterface, i.op = .invokeSpecial m isInterface → isRootConstructor m ≠ .ok true)
    (ht : after lib off (n + 1) s = some t) (hback : t.height = s.height)
    (hfirst : ∀ k u, 0 < k → k ≤ n → after lib off k s = some u → u.height ≠ s.height) :
    ∃ args rest, args.length = count ∧ s.frame.stack = args ++ rest ∧
      (∀ k u, 0 < k → k ≤ n → after lib off k s = some u →
        ∃ inner, u.callers = inner ++ { s.frame with stack := rest } :: s.callers) ∧
      ∃ u j type, after lib off n s = some u ∧ fetch lib u.frame.place = .ok j ∧ j.op = .ret type ∧
        u.callers = { s.frame with stack := rest } :: s.callers ∧ t.callers = s.callers ∧
        Resumed u { s.frame with stack := rest } type t.frame := by
  obtain ⟨s₁, hs₁, -⟩ := after_first ht
  obtain ⟨i', hi', hc⟩ := Change.of_step hs₁
  obtain rfl := Except.ok.inj (hi.symm.trans hi')
  obtain ⟨args, rest, hlen, hstack, hcall⟩ := hc.of_call hop hroot
  have hover := over_run hs₁ ⟨[], hcall⟩ hfirst
  obtain ⟨u, hu, hlast⟩ := after_last ht
  have hpos : 0 < n := by
    rcases Nat.eq_zero_or_pos n with rfl | hpos
    · obtain rfl := Option.some.inj hu
      obtain rfl := Outcome.running.inj (Except.ok.inj (hs₁.symm.trans hlast))
      simp [State.height, hcall] at hback
    · exact hpos
  obtain ⟨j, hj, hc⟩ := Change.of_step hlast
  rcases hc.over (hover n u hpos (Nat.le_refl n) hu) with hstill | ⟨hu', ht', type, htype, hresumed⟩
  · have := hstill.height
    rw [hback, State.height] at this
    omega
  · exact ⟨args, rest, hlen, hstack, hover, u, j, type, hu, hj, htype, hu', ht', hresumed⟩

/-- Divides its arguments; from offset 4 on, it calls itself. -/
def quotientId : MethodId := ⟨⟨"math.Quotient"⟩, "quotient", [.int, .int], some .int⟩

def quotientCode : List Instr := [
  .load .int (.int 0), .load .int (.int 1), .binary .int .div, .ret (some .int),
  .push (.ofInt 0), .push (.ofInt 5), .invokeStatic quotientId.ref, .ret (some .int)].map
    (Instr.mk .null)

def quotientCall (stack : Stack Value) : State := ⟨.empty, ⟨[], stack, ⟨quotientId, 6⟩⟩, []⟩

def quotientInside (stack : Stack Value) (n : Nat) : State :=
  ⟨.empty, ⟨.ofList [.ofInt 0, .ofInt 5], stack, ⟨quotientId, n⟩⟩, [(quotientCall []).frame]⟩

theorem call_returns_quotient :
    ∃ t,
      after (single quotientId quotientCode) false 5 (quotientCall [.ofInt 0, .ofInt 5]) = some t ∧
      t.height = 1 ∧ ∃ args rest, args.length = 2 ∧ [Value.ofInt 0, .ofInt 5] = args ++ rest ∧
      ∃ v, t.frame.stack = v :: rest ∧ t.frame.place = ⟨quotientId, 7⟩ := by
  let lib := single quotientId quotientCode
  have h₀ : step lib false (quotientCall [.ofInt 0, .ofInt 5]) =
      .ok (.running (quotientInside [] 0)) :=
    step_single 6 rfl rfl (by simp) (by decide +kernel) rfl
  have h₁ : step lib false (quotientInside [] 0) = .ok (.running (quotientInside [.ofInt 0] 1)) :=
    step_single 0 rfl rfl (by simp) (by decide +kernel) rfl
  have h₂ : step lib false (quotientInside [.ofInt 0] 1) =
      .ok (.running (quotientInside [.ofInt 5, .ofInt 0] 2)) :=
    step_single 1 rfl rfl (by simp) (by decide +kernel) rfl
  have h₃ : step lib false (quotientInside [.ofInt 5, .ofInt 0] 2) =
      .ok (.running (quotientInside [.ofInt 0] 3)) :=
    step_single 2 rfl rfl (by simp) (by decide +kernel) rfl
  obtain ⟨t, h₄, hheight⟩ : ∃ t, step lib false (quotientInside [.ofInt 0] 3) = .ok (.running t) ∧
      t.height = 1 :=
    ⟨_, step_single 3 rfl rfl (by simp) (by decide +kernel) rfl, rfl⟩
  have ht : after lib false 5 (quotientCall [.ofInt 0, .ofInt 5]) = some t := by
    rw [after_succ h₀, after_succ h₁, after_succ h₂, after_succ h₃, after_succ h₄, after]
  have hfirst : ∀ k u, 0 < k → k ≤ 4 →
      after lib false k (quotientCall [.ofInt 0, .ofInt 5]) = some u →
      u.height ≠ (quotientCall [.ofInt 0, .ofInt 5]).height := by
    intro k u hpos hk hu
    have hinside : ∃ stack n, u = quotientInside stack n := by
      obtain rfl | rfl | rfl | rfl : k = 1 ∨ k = 2 ∨ k = 3 ∨ k = 4 := by omega
      · rw [after_succ h₀, after] at hu
        exact ⟨_, _, (Option.some.inj hu).symm⟩
      · rw [after_succ h₀, after_succ h₁, after] at hu
        exact ⟨_, _, (Option.some.inj hu).symm⟩
      · rw [after_succ h₀, after_succ h₁, after_succ h₂, after] at hu
        exact ⟨_, _, (Option.some.inj hu).symm⟩
      · rw [after_succ h₀, after_succ h₁, after_succ h₂, after_succ h₃, after] at hu
        exact ⟨_, _, (Option.some.inj hu).symm⟩
    obtain ⟨stack, n, rfl⟩ := hinside
    exact (by decide : (2 : Nat) ≠ 1)
  have hfetch : fetch lib (quotientCall [.ofInt 0, .ofInt 5]).frame.place =
      .ok ⟨.null, .invokeStatic quotientId.ref⟩ :=
    fetch_single 6 rfl
  have hcall : (Op.invokeStatic quotientId.ref).call? = some (quotientId.ref, 2) := rfl
  obtain ⟨args, rest, hlen, hstack, -, u, j, type, hu, hj, htype, -, -, hresumed⟩ :=
    call_returns hfetch hcall (by simp) ht hheight hfirst
  rw [after_succ h₀, after_succ h₁, after_succ h₂, after_succ h₃, after] at hu
  obtain rfl := Option.some.inj hu
  have hret : fetch lib (quotientInside [.ofInt 0] 3).frame.place = .ok ⟨.null, .ret (some .int)⟩ :=
    fetch_single 3 rfl
  obtain rfl := Except.ok.inj (hret.symm.trans hj)
  obtain rfl := Op.ret.inj htype
  obtain ⟨v, -, hv⟩ := hresumed.value (by simp)
  exact ⟨t, ht, hheight, args, rest, hlen, hstack, v, hv, hresumed.place⟩

section Arguments

variable {lib : Library} {off : Bool} {s : State} {id : MethodId} {args : List Value}
  {rest : Stack Value}

structure Enters (s : State) (id : MethodId) (rest : Stack Value) (t : State) : Prop where
  heap : t.heap = s.heap
  place : t.frame.place = ⟨id, 0⟩
  stack : t.frame.stack = []
  callers : t.callers = { s.frame with stack := rest } :: s.callers

theorem popMany_pushed (h : s.frame.stack = args.reverse ++ rest) :
    s.frame.popMany args.length = .ok (args, { s.frame with stack := rest }) := by
  have hpop := popMany_append args.reverse s.frame rest h
  rwa [List.length_reverse, List.reverse_reverse] at hpop

theorem lookup_ofList_nat (vs : List Value) (j : Nat) :
    (Locals.ofList vs).lookup (j : Int) = vs[j]? := by
  simp [Locals.lookup_ofList]

/-- A static call hands over its arguments with the last one first. -/
theorem invokeStatic_eq (hlen : args.length = id.signature.params.length)
    (h : s.frame.stack = args.reverse ++ rest) :
    ∃ t, invokeStatic s id.ref = .ok (.running t) ∧ Enters s id rest t ∧
      t.frame.locals = .ofList args.reverse := by
  have hcount : id.ref.params.length = args.length := hlen.symm
  rw [invokeStatic, hcount, popMany_pushed h, ok_bind]
  exact ⟨_, rfl, ⟨rfl, rfl, rfl, rfl⟩, rfl⟩

/-- A call on an object hands over the object and the arguments in order. -/
theorem invokeOn_eq {receiver : Value} (hlen : args.length = id.signature.params.length)
    (h : s.frame.stack = args.reverse ++ receiver :: rest) :
    ∃ t, invokeOn s id.ref = .ok (.running t) ∧ Enters s id rest t ∧
      t.frame.locals = .ofList (receiver :: args) := by
  have hcount : id.ref.params.length + 1 = (receiver :: args).length := congrArg (· + 1) hlen.symm
  have hpushed : s.frame.stack = (receiver :: args).reverse ++ rest := by simp [h]
  rw [invokeOn, hcount, popMany_pushed hpushed, ok_bind]
  exact ⟨_, rfl, ⟨rfl, rfl, rfl, rfl⟩, rfl⟩

theorem reverse_eq_iff {α : Type} (xs : List α) :
    (∀ j < xs.length, xs.reverse[j]? = xs[j]?) ↔ xs.reverse = xs := by
  constructor
  · intro h
    refine List.ext_getElem? fun j => ?_
    by_cases hj : j < xs.length
    · exact h j hj
    · rw [List.getElem?_eq_none (by simpa using hj), List.getElem?_eq_none (by simpa using hj)]
  · intro h j _
    rw [h]

/-- Where the arguments of a call end up. Calls on objects keep their order, static calls turn it
around, so that only a list of arguments that is its own reverse arrives in order. -/
theorem arguments_of_calls (off : Bool) (id : MethodId) (args : List Value)
    (rest : Stack Value) {i : Instr} (hi : fetch lib s.frame.place = .ok i)
    (hw : s.isWritable = true) (hlen : args.length = id.signature.params.length) :
    (i.op = .invokeStatic id.ref → s.frame.stack = args.reverse ++ rest →
      ∃ t, step lib off s = .ok (.running t) ∧ Enters s id rest t ∧
        (∀ j < args.length, t.frame.locals.lookup (j : Int) = args[args.length - 1 - j]?) ∧
        ((∀ j < args.length, t.frame.locals.lookup (j : Int) = args[j]?) ↔ args.reverse = args)) ∧
    ∀ receiver, (i.op = .invokeVirtual id.ref ∨
        ∃ isInterface, i.op = .invokeSpecial id.ref isInterface ∧
          isRootConstructor id.ref = .ok false) →
      s.frame.stack = args.reverse ++ receiver :: rest →
      ∃ t, step lib off s = .ok (.running t) ∧ Enters s id rest t ∧
        t.frame.locals.lookup 0 = some receiver ∧
        ∀ j < args.length, t.frame.locals.lookup ((j + 1 : Nat) : Int) = args[j]? := by
  obtain ⟨offset, op⟩ := i
  refine ⟨?_, ?_⟩
  · rintro rfl hstack
    obtain ⟨t, ht, henters, hlocals⟩ := invokeStatic_eq hlen hstack
    refine ⟨t, ?_, henters, ?_, ?_⟩
    · rw [step_eq hi nofun, if_pos hw]
      exact ht
    · intro j hj
      rw [hlocals, lookup_ofList_nat, List.getElem?_reverse hj]
    · simp only [hlocals, lookup_ofList_nat]
      exact reverse_eq_iff args
  · intro receiver hop hstack
    obtain ⟨t, ht, henters, hlocals⟩ := invokeOn_eq hlen hstack
    refine ⟨t, ?_, henters, ?_, ?_⟩
    · rcases hop with rfl | ⟨isInterface, rfl, hroot⟩
      · rw [step_eq hi nofun, if_pos hw]
        exact ht
      · rw [step_eq hi nofun, if_pos hw]
        show invokeSpecial s id.ref = _
        rw [invokeSpecial, hroot, ok_bind]
        exact ht
    · rw [hlocals]
      exact lookup_ofList_nat _ 0
    · intro j _
      rw [hlocals, lookup_ofList_nat, List.getElem?_cons_succ]

end Arguments

theorem arguments_of_calls_quotient :
    ∃ t, step (single quotientId quotientCode) false (quotientCall [.ofInt 5, .ofInt 0]) =
      .ok (.running t) ∧
      Enters (quotientCall [.ofInt 5, .ofInt 0]) quotientId [] t ∧
      ∀ j : Nat, j < 2 → t.frame.locals.lookup (j : Int) = [Value.ofInt 0, .ofInt 5][1 - j]? := by
  have hfetch :
      fetch (single quotientId quotientCode) (quotientCall [.ofInt 5, .ofInt 0]).frame.place =
        .ok ⟨.null, .invokeStatic quotientId.ref⟩ :=
    fetch_single 6 rfl
  have hargs :=
    arguments_of_calls false quotientId [.ofInt 0, .ofInt 5] [] hfetch (by decide +kernel) rfl
  obtain ⟨t, ht, henters, hlocals, -⟩ := hargs.1 rfl rfl
  exact ⟨t, ht, henters, hlocals⟩

/-- The quotient of 0 by 5 is called with 5 as its first argument. -/
theorem first_argument_last :
    ∃ t, step (single quotientId quotientCode) false (quotientCall [.ofInt 5, .ofInt 0]) =
      .ok (.running t) ∧
      t.frame.locals.lookup 0 = some (.ofInt 5) ∧ t.frame.locals.lookup 1 = some (.ofInt 0) :=
  ⟨_, step_single 6 rfl rfl (by simp) (by decide +kernel) rfl, rfl, rfl⟩

end Machine

end Assay
