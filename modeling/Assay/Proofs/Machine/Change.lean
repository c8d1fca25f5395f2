import Assay.Machine.Step
import Assay.Proofs.Fallible

/-!
# What a step changes

`Change` lists the ways in which an instruction turns a state into the next one. Most instructions
change the running frame alone. Calls and returns move frames between the running one and those that
wait, and only new objects, new arrays and stores touch the heap. Statements about whole runs are
proved from these cases and do not open the instructions again.
-/

namespace Assay

def Value.array? : Value → Option (List Datum)
  | ⟨.array _, .tuple xs⟩ => some xs
  | _ => none

theorem Value.array?_eq_some {v : Value} {xs : List Datum} :
    v.array? = some xs ↔ ∃ type, v = .ofArray type xs := by
  constructor
  · intro h
    unfold Value.array? at h
    split at h
    · obtain rfl := Option.some.inj h
      exact ⟨_, rfl⟩
    · cases h
  · rintro ⟨type, rfl⟩
    rfl

namespace Op

/-- The instruction makes a new object or array. -/
def allocates : Op → Bool
  | .new _ | .newArray .. => true
  | _ => false

/-- The method that a call is of, and how many values the call takes from the stack: a call on an
object takes the object as well. -/
def call? : Op → Option (MethodRef × Nat)
  | .invokeStatic m => some (m, m.params.length)
  | .invokeVirtual m | .invokeSpecial m _ => some (m, m.params.length + 1)
  | _ => none

/-- The heap entry into which an instruction stores, found below the value that it stores. -/
def target? (op : Op) (stack : Stack Value) : Option Int :=
  match op, stack with
  | .arrayStore _, _ :: _ :: r :: _ => Heap.ref? r.content
  | .put false _, _ :: r :: _ => Heap.ref? r.content
  | _, _ => none

end Op

theorem Frame.pop_eq_ok {f g : Frame} {v : Value} (h : f.pop = .ok (v, g)) :
    f.stack = v :: g.stack ∧ g = { f with stack := g.stack } := by
  obtain ⟨⟨w, st⟩, hpop, hret⟩ := bind_eq_ok.1 h
  obtain ⟨rfl, rfl⟩ := Prod.mk.inj (Except.ok.inj hret)
  cases hst : f.stack with
  | nil => simp [hst, Stack.pop] at hpop
  | cons x xs =>
    rw [hst] at hpop
    obtain ⟨rfl, rfl⟩ := Prod.mk.inj (Except.ok.inj hpop)
    exact ⟨rfl, rfl⟩

theorem Frame.popMany_eq_ok {n : Nat} {f g : Frame} {vs : List Value}
    (h : f.popMany n = .ok (vs, g)) :
    vs.length = n ∧ f.stack = vs.reverse ++ g.stack ∧ g = { f with stack := g.stack } := by
  induction n generalizing f vs with
  | zero =>
    obtain ⟨rfl, rfl⟩ := Prod.mk.inj (Except.ok.inj h)
    exact ⟨rfl, rfl, rfl⟩
  | succ n ih =>
    obtain ⟨⟨v, f'⟩, hpop, h⟩ := bind_eq_ok.1 h
    obtain ⟨⟨ws, g'⟩, hmany, h⟩ := bind_eq_ok.1 h
    obtain ⟨rfl, rfl⟩ := Prod.mk.inj (Except.ok.inj h)
    obtain ⟨hst, hf⟩ := pop_eq_ok hpop
    obtain ⟨hlen, hst', hg⟩ := ih hmany
    refine ⟨by simp [hlen], by simp [hst, hst'], ?_⟩
    rw [hg, hf]

theorem Heap.fetch_eq_ok {h : Heap} {d : Datum} {r : Int} {v : Value}
    (hf : h.fetch d = .ok (r, v)) :
    Heap.ref? d = some r ∧ h.get? r = some v := by
  obtain ⟨found, hfind, hf⟩ := bind_eq_ok.1 hf
  cases hr : Heap.ref? d with
  | none => simp [hr] at hf
  | some k =>
    cases found with
    | none => simp [hr] at hf
    | some w =>
      rw [hr] at hf
      obtain ⟨rfl, rfl⟩ := Prod.mk.inj (Except.ok.inj hf)
      unfold Heap.find at hfind
      split at hfind
      · rw [hr] at hfind
        exact ⟨rfl, Except.ok.inj hfind⟩
      · cases hfind

namespace Machine

theorem number_eq_ok {d : Datum} {n : Int} : number d = .ok n ↔ d.asInt? = some n := by
  unfold number
  cases d.asInt? <;> simp

theorem elements_eq_ok {d : Datum} {xs : List Datum} :
    elements d = .ok xs ↔ d.elements? = some xs := by
  unfold elements
  cases d.elements? <;> simp

/-- If the machine goes on after `x`, then in a state with `P`. -/
def Leads (x : Except Fault Outcome) (P : State → Prop) : Prop := ∀ t, x = .ok (.running t) → P t

namespace Leads

variable {P : State → Prop} {s : State}

theorem bind {α : Type} {x : Except Fault α} {f : α → Except Fault Outcome}
    (h : ∀ a, x = .ok a → Leads (f a) P) : Leads (x >>= f) P := by
  intro t ht
  obtain ⟨a, ha, hf⟩ := bind_eq_ok.1 ht
  exact h a ha t hf

theorem ite {c : Prop} [Decidable c] {x y : Except Fault Outcome} (hx : c → Leads x P)
    (hy : ¬ c → Leads y P) : Leads (if c then x else y) P := by
  split
  next h => exact hx h
  next h => exact hy h

theorem running {t : State} (h : P t) : Leads (.ok (.running t)) P := by
  rintro _ ⟨⟩
  exact h

theorem ended {e : Ending} : Leads (.ok (.ended e)) P := nofun

theorem lost {reason : String} : Leads (.ok (.lost reason)) P := nofun

theorem error {e : Fault} : Leads (.error e) P := nofun

end Leads

/-- What an instruction can do to a state, if the machine goes on. -/
inductive Change (s : State) : Op → State → Prop
  | frame {op : Op} (hnew : op.allocates = false) (hcall : op.call? = none) (f : Frame) :
      Change s op { s with frame := f }
  /-- The constructor that does nothing is passed over. -/
  | pass {m : MethodRef} {isInterface : Bool} (h : isRootConstructor m = .ok true) :
      Change s (.invokeSpecial m isInterface) { s with frame := s.frame.advance }
  | call {op : Op} {m : MethodRef} {count : Nat} {id : MethodId} {args : List Value}
      {caller : Frame} (hop : op.call? = some (m, count))
      (hpop : s.frame.popMany count = .ok (args, caller)) (locals : Locals Value) :
        Change s op ⟨s.heap, .enter id locals, caller :: s.callers⟩
  | ret {caller : Frame} {callers : List Frame} (hs : s.callers = caller :: callers) :
      Change s (.ret none) ⟨s.heap, caller.advance, callers⟩
  | retValue {type : Ty} {v : Value} {st : Stack Value} {caller : Frame} {callers : List Frame}
      (hs : s.callers = caller :: callers) (hst : s.frame.stack = v :: st) :
      Change s (.ret (some type)) ⟨s.heap, (caller.push v).advance, callers⟩
  | alloc {op : Op} (hop : (∃ owner, op = .new owner) ∨ ∃ type d, op = .newArray type d ∧ d.val = 1)
      (v : Value) (f : Frame) :
      Change s op ⟨s.heap.put s.heap.next v, (f.push (.ofInt s.heap.next)).advance, s.callers⟩
  | matrix {d : Whole} (hd : d.val = 2) (type : Ty) (rows : Nat) (columns : Int) (f : Frame) :
      Change s (.newArray type d)
        ⟨putMatrix type rows columns s.heap, (f.push (.ofInt s.heap.next)).advance, s.callers⟩
  /-- A store keeps the length of an array. -/
  | store {op : Op} {r : Int} {old new : Value} (hr : op.target? s.frame.stack = some r)
      (hold : s.heap.get? r = some old)
      (hsize : ∀ xs, old.array? = some xs → ∃ ys, new.array? = some ys ∧ ys.length = xs.length)
      (hnew : op.allocates = false) (hcall : op.call? = none) (f : Frame) :
      Change s op ⟨s.heap.put r new, f, s.callers⟩

/-- A call passes over the constructor that does nothing, or puts a frame on top of the caller. -/
theorem Change.call_cases {s t : State} {op : Op} {m : MethodRef} {count : Nat} (hc : Change s op t)
    (hop : op.call? = some (m, count)) :
    ((∃ isInterface, op = .invokeSpecial m isInterface) ∧ isRootConstructor m = .ok true ∧
      t = { s with frame := s.frame.advance }) ∨
    ∃ id args caller locals, s.frame.popMany count = .ok (args, caller) ∧
      t = ⟨s.heap, .enter id locals, caller :: s.callers⟩ := by
  cases hc with
  | pass h =>
    obtain ⟨rfl, -⟩ := Prod.mk.inj (Option.some.inj hop)
    exact .inl ⟨⟨_, rfl⟩, h, rfl⟩
  | call hop' hpop locals =>
    obtain ⟨-, rfl⟩ := Prod.mk.inj (Option.some.inj (hop.symm.trans hop'))
    exact .inr ⟨_, _, _, locals, hpop, rfl⟩
  | frame hnew hcall f => simp [hop] at hcall
  | store hr hold hsize hnew hcall f => simp [hop] at hcall
  | alloc h v f => rcases h with ⟨owner, rfl⟩ | ⟨type, d, rfl, hd⟩ <;> cases hop
  | matrix => cases hop
  | ret => cases hop
  | retValue => cases hop

section

variable (s : State)

/-- The computation changes the running frame alone. -/
abbrev KeepsRest (s : State) (x : Except Fault Outcome) : Prop :=
  Leads x fun t => ∃ f, t = { s with frame := f }

theorem keepsRest_go (f : Frame) : KeepsRest s (.ok (go s f)) := .running ⟨f, rfl⟩

theorem keepsRest_binary (a : Arith) : KeepsRest s (binary s a) := by
  refine .bind fun _ _ => .bind fun _ _ => .bind fun _ _ => .bind fun _ _ =>
    .ite (fun _ => .ended) fun _ =>
    .bind fun _ _ => .bind fun _ _ => ?_
  split
  · exact keepsRest_go s _
  · exact .ended

theorem keepsRest_compare (c : String) (target : Int) : KeepsRest s (compare s c target) :=
  .bind fun _ _ => .bind fun _ _ => .bind fun _ _ => keepsRest_go s _

theorem keepsRest_compareZero (c : String) (target : Int) : KeepsRest s (compareZero s c target) :=
  .bind fun _ _ => .bind fun _ _ => keepsRest_go s _

theorem keepsRest_load (i : Int) : KeepsRest s (load s i) := .bind fun _ _ => keepsRest_go s _

theorem keepsRest_store (i : Int) : KeepsRest s (store s i) := .bind fun _ _ => keepsRest_go s _

theorem keepsRest_increment (i amount : Int) : KeepsRest s (increment s i amount) :=
  .bind fun _ _ => .bind fun _ _ => .bind fun _ _ => keepsRest_go s _

theorem keepsRest_dup : KeepsRest s (dup s) := .bind fun _ _ => keepsRest_go s _

theorem keepsRest_getStatic (lib : Library) (off : Bool) (field : FieldRef) :
    KeepsRest s (getStatic lib off s field) := by
  unfold getStatic
  refine .ite (fun _ => .bind fun _ _ => keepsRest_go s _) fun _ => ?_
  exact .bind fun _ _ => .bind fun _ _ => keepsRest_go s _

theorem keepsRest_getField (field : FieldRef) : KeepsRest s (getField s field) := by
  refine .bind fun _ _ => .ite (fun _ => .ended) fun _ => .bind fun o _ => ?_
  cases o with
  | none => exact .error
  | some o =>
    refine .bind fun d _ => ?_
    split
    · exact keepsRest_go s _
    · exact keepsRest_go s _

theorem keepsRest_arrayLoad (type : Ty) : KeepsRest s (arrayLoad s type) := by
  refine .bind fun _ _ => .bind fun _ _ => .bind fun _ _ => .bind fun _ _ => .bind fun _ _ =>
    .bind fun _ _ => .bind fun _ _ => .ite (fun _ => .ended) fun _ => ?_
  exact .bind fun _ _ => .bind fun _ _ => keepsRest_go s _

theorem keepsRest_arrayLength : KeepsRest s (arrayLength s) :=
  .bind fun _ _ => .ite (fun _ => .ended) fun _ => .bind fun _ _ => .bind fun _ _ =>
    keepsRest_go s _

theorem keepsRest_cast (source target : Ty) : KeepsRest s (cast s source target) := by
  unfold cast
  split
  · exact .bind fun _ _ => keepsRest_go s _
  · exact .error

end

section

variable {s : State} {op : Op} {x : Except Fault Outcome}

theorem KeepsRest.change (h : KeepsRest s x) (hnew : op.allocates = false)
    (hcall : op.call? = none) :
    Leads x (Change s op) := by
  intro t ht
  obtain ⟨f, rfl⟩ := h t ht
  exact .frame hnew hcall f

theorem leads_call {m : MethodRef} {count : Nat} {args locals : List Value} {caller : Frame}
    (hop : op.call? = some (m, count)) (hpop : s.frame.popMany count = .ok (args, caller)) :
    Leads (call s caller m locals) (Change s op) := by
  unfold call
  split
  · exact .running (.call hop hpop _)
  · exact .error

theorem leads_invokeOn {m : MethodRef} (hop : op.call? = some (m, m.params.length + 1)) :
    Leads (invokeOn s m) (Change s op) :=
  .bind fun _ hpop => leads_call hop hpop

theorem leads_invokeSpecial (m : MethodRef) (isInterface : Bool) :
    Leads (invokeSpecial s m) (Change s (.invokeSpecial m isInterface)) := by
  refine .bind fun root hroot => ?_
  cases root with
  | false => exact leads_invokeOn rfl
  | true => exact .running (.pass hroot)

theorem leads_ret (type : Option Ty) : Leads (ret s type) (Change s (.ret type)) := by
  unfold ret
  cases hs : s.callers with
  | nil => exact .ended
  | cons caller callers =>
    cases type with
    | none => exact .running (.ret hs)
    | some type => exact .bind fun _ hpop => .running (.retValue hs (Frame.pop_eq_ok hpop).1)

theorem leads_new (lib : Library) (owner : Label) :
    Leads (new lib s owner) (Change s (.new owner)) := by
  refine .bind fun _ _ => .ite (fun _ => .ended) fun _ => ?_
  exact .bind fun v _ => .running (.alloc (.inl ⟨owner, rfl⟩) v s.frame)

theorem leads_newArray {type : Ty} {d : Whole} (hd : d.val = 1) :
    Leads (newArray s type) (Change s (.newArray type d)) :=
  .bind fun _ _ => .bind fun _ _ => .bind fun _ _ => .bind fun _ _ =>
    .running (.alloc (.inr ⟨type, d, rfl, hd⟩) _ _)

theorem leads_newMatrix {type : Ty} {d : Whole} (hd : d.val = 2) :
    Leads (newMatrix s type) (Change s (.newArray type d)) := by
  refine .bind fun _ _ => .bind fun _ _ => .bind fun _ _ => .bind fun _ _ => .bind fun _ _ =>
    .ite (fun _ => .ended) fun _ => .bind fun _ _ => .ite (fun _ => .ended) fun _ => ?_
  exact .running (.matrix hd type _ _ _)

theorem leads_arrayStore (type : Ty) : Leads (arrayStore s type) (Change s (.arrayStore type)) := by
  refine .bind fun ⟨v, f₁⟩ hv => .bind fun ⟨index, f₂⟩ hindex => .bind fun ⟨r, f₃⟩ hr => ?_
  have hstack : s.frame.stack = v :: index :: r :: f₃.stack := by
    rw [(Frame.pop_eq_ok hv).1, (Frame.pop_eq_ok hindex).1, (Frame.pop_eq_ok hr).1]
  refine .ite (fun _ => .ended) fun _ => .bind fun _ _ => .bind fun _ _ => .bind fun i _ =>
    .ite (fun _ => .ended) fun _ => .bind fun ⟨ref, old⟩ hfetch => .bind fun xs hxs =>
    .ite (fun _ => .ended) fun _ => .bind fun _ _ => .running ?_
  obtain ⟨href, hold⟩ := Heap.fetch_eq_ok hfetch
  refine .store (by simpa [Op.target?, hstack] using href) hold ?_ rfl rfl _
  -- the elements of the old array come back with one of them replaced
  intro ys hys
  obtain ⟨_, rfl⟩ := Value.array?_eq_some.1 hys
  obtain rfl := Except.ok.inj hxs
  exact ⟨_, rfl, List.length_set⟩

theorem leads_putField (field : FieldRef) :
    Leads (putField s field) (Change s (.put false field)) := by
  refine .bind fun ⟨v, f₁⟩ hv => .bind fun ⟨r, f₂⟩ hr => ?_
  have hstack : s.frame.stack = v :: r :: f₂.stack := by
    rw [(Frame.pop_eq_ok hv).1, (Frame.pop_eq_ok hr).1]
  refine .ite (fun _ => .lost) fun _ => .bind fun ⟨ref, old⟩ hfetch => ?_
  obtain ⟨href, hold⟩ := Heap.fetch_eq_ok hfetch
  have htarget : (Op.put false field).target? s.frame.stack = some ref := by
    simpa [Op.target?, hstack] using href
  dsimp only
  split
  next es hes =>
    refine .running (Change.store htarget hold (fun xs hxs => ?_) rfl rfl _)
    obtain ⟨_, rfl⟩ := Value.array?_eq_some.1 hxs
    cases hes
  next => exact (keepsRest_go s _).change rfl rfl

end

section

variable {lib : Library} {off : Bool} {s t : State}

theorem leads_exec (i : Instr) : Leads (exec lib off s i) (Change s i.op) := by
  obtain ⟨offset, op⟩ := i
  cases op with
  | push v => exact (keepsRest_go s _).change rfl rfl
  | load type n =>
    cases type with
    | int => exact (keepsRest_load s _).change rfl rfl
    | reference => exact (keepsRest_load s _).change rfl rfl
    | _ => exact .error
  | binary type a =>
    cases type with
    | int => exact (keepsRest_binary s a).change rfl rfl
    | _ => exact .error
  | incr n a => exact (keepsRest_increment s _ _).change rfl rfl
  | dup w => exact .ite (fun _ => (keepsRest_dup s).change rfl rfl) fun _ => .error
  | get isStatic f =>
    cases isStatic with
    | true => exact (keepsRest_getStatic s lib off f).change rfl rfl
    | false => exact (keepsRest_getField s f).change rfl rfl
  | ret type => exact leads_ret type
  | compare c t => exact (keepsRest_compare s c _).change rfl rfl
  | compareZero c t => exact (keepsRest_compareZero s c _).change rfl rfl
  | new owner => exact leads_new lib owner
  | store type n => exact (keepsRest_store s _).change rfl rfl
  | newArray type d => exact .ite leads_newArray fun _ => .ite leads_newMatrix fun _ => .error
  | arrayStore type => exact leads_arrayStore type
  | arrayLoad type => exact (keepsRest_arrayLoad s type).change rfl rfl
  | arrayLength => exact (keepsRest_arrayLength s).change rfl rfl
  | invokeStatic m => exact .bind fun _ hpop => leads_call rfl hpop
  | invokeSpecial m isInterface => exact leads_invokeSpecial m isInterface
  | invokeVirtual m => exact leads_invokeOn rfl
  | goto t => exact (keepsRest_go s _).change rfl rfl
  | cast a b => exact (keepsRest_cast s a b).change rfl rfl
  | put isStatic f =>
    cases isStatic with
    | true => exact .error
    | false => exact leads_putField f
  | invokeInterface m size => exact .error
  | throw => exact .error

theorem exec_of_step (h : step lib off s = .ok (.running t)) :
    ∃ i, fetch lib s.frame.place = .ok i ∧ exec lib off s i = .ok (.running t) := by
  obtain ⟨i, hi, h⟩ := bind_eq_ok.1 h
  obtain ⟨_, _, h⟩ := bind_eq_ok.1 h
  split at h
  · exact ⟨i, hi, h⟩
  · cases h

/-- A step makes the change of the instruction that it fetches. -/
theorem Change.of_step (h : step lib off s = .ok (.running t)) :
    ∃ i, fetch lib s.frame.place = .ok i ∧ Change s i.op t := by
  obtain ⟨i, hi, h⟩ := exec_of_step h
  exact ⟨i, hi, leads_exec i t h⟩

end

end Machine

end Assay
