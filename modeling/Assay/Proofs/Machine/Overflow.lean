import Assay.Proofs.Machine.Call
import Assay.Proofs.Machine.Verified
import Assay.Proofs.Machine.Word

/-!
# Overflow

An Int of the machine has no bounds, and nothing wraps it. For each instruction that can give one
that is no word, `Exceeds` has what this takes, and the Ints of a run stay words exactly as long as
no step does so.
-/

namespace Assay

namespace Machine

/-- The instruction gives a number that is no word: as it stands in the class file, as the result of
arithmetic, as the number of a heap entry or the length of an array, or out of an array that is none
of Ints. -/
inductive Exceeds (lib : Library) (off : Bool) (s : State) : Op → Prop
  | literal {v : Value} (h : ¬ v.HoldsWords) : Exceeds lib off s (.push v)
  | result {a : Arith} {v w : Value} {rest : Stack Value} {x y z : Int}
      (hstack : s.frame.stack = w :: v :: rest) (hx : v.content.asInt? = some x)
      (hy : w.content.asInt? = some y) (hz : a.eval x y = some z) (h : ¬ IsWord z) :
        Exceeds lib off s (.binary .int a)
  | sum {n a : Whole} {v : Value} {x : Int} (hv : s.frame.locals.lookup n.val = some v)
      (hx : v.content.asInt? = some x) (h : ¬ IsWord (x + a.val)) : Exceeds lib off s (.incr n a)
  | constant {field : FieldRef} {c : ClassFile} {n : Int}
      (hoff : (off && field.name == .str assertionField) = false)
      (hc : lib.find s.frame.place.method.owner = .ok c)
      (hn : c.staticField field.name = .ok (.ofInt n)) (h : ¬ IsWord n) :
        Exceeds lib off s (.get true field)
  | object (owner : Label) (h : ¬ IsWord s.heap.next) : Exceeds lib off s (.new owner)
  | array (type : Ty) (d : Whole) (h : ¬ IsWord s.heap.next) : Exceeds lib off s (.newArray type d)
  | length {r v : Value} {rest : Stack Value} {k : Int} {xs : List Datum}
      (hstack : s.frame.stack = r :: rest) (hr : s.heap.fetch r.content = .ok (k, v))
      (hxs : v.content.elements? = some xs) (h : ¬ IsWord xs.length) :
      Exceeds lib off s .arrayLength
  | element {type : Ty} {index r v : Value} {rest : Stack Value} {k i : Int}
      {xs : List Datum} {d : Datum} (htype : type = .int ∨ type = .reference)
      (hstack : s.frame.stack = index :: r :: rest) (hr : s.heap.fetch r.content = .ok (k, v))
      (hv : v.type = .array .int → v.content.members? = none) (hxs : v.content.elements? = some xs)
      (hi : index.content.asInt? = some i) (hd : elementAt xs i = .ok d) (h : ¬ d.IsWord) :
        Exceeds lib off s (.arrayLoad type)
  | member {stored index r v : Value} {rest : Stack Value} {k i : Int} {xs : List Datum}
      {j : Nat} {x : Datum} (hstack : s.frame.stack = stored :: index :: r :: rest)
      (hr : s.heap.fetch r.content = .ok (k, v))
      (hv : v.type = .array .int → v.content.members? = none) (hxs : v.content.elements? = some xs)
      (hi : index.content.asInt? = some i) (hx : xs[j]? = some x) (hj : j ≠ i.toNat)
      (h : ¬ x.IsWord) :
      Exceeds lib off s (.arrayStore .int)

theorem exceeds_new_iff {lib : Library} {off : Bool} {s : State} {owner : Label} :
    Exceeds lib off s (.new owner) ↔ ¬ IsWord s.heap.next := by
  constructor
  · intro h
    cases h with
    | object _ h => exact h
  · exact .object owner

theorem exceeds_newArray_iff {lib : Library} {off : Bool} {s : State} {type : Ty} {d : Whole} :
    Exceeds lib off s (.newArray type d) ↔ ¬ IsWord s.heap.next := by
  constructor
  · intro h
    cases h with
    | array _ _ h => exact h
  · exact .array type d

theorem holdsWords_zeros (type : Ty) (n : Int) : (Value.ofArray type (zeros n)).HoldsWords := by
  refine Value.holdsWords_ofArray fun _ x hx => ?_
  obtain rfl := List.eq_of_mem_replicate hx
  exact Datum.isWord_int.2 (by decide)

theorem holdsWords_putRows {row : Value} (hrow : row.HoldsWords) (n : Nat) (r : Int) {h : Heap}
    (hh : ∀ e ∈ h.entries, e.2.HoldsWords) : ∀ e ∈ (putRows row n r h).entries, e.2.HoldsWords := by
  induction n generalizing r h with
  | zero => exact hh
  | succ n ih => exact ih (r + 1) ((Heap.forall_put hh _ _).2 hrow)

/-- The numbers of the rows are no Ints. -/
theorem holdsWords_putMatrix {h : Heap} (hh : ∀ e ∈ h.entries, e.2.HoldsWords)
    (type : Ty) (rows : Nat) (columns : Int) :
    ∀ e ∈ (putMatrix type rows columns h).entries, e.2.HoldsWords := by
  have hrows := holdsWords_putRows (holdsWords_zeros type columns) rows (h.next + 1) hh
  exact (Heap.forall_put hrows _ _).2 (Value.holdsWords_ofArray nofun)

theorem isWord_codePoint {d : Datum} {n : Int} (h : codePoint d = .ok n) : IsWord n := by
  unfold codePoint at h
  split at h
  next =>
    split at h
    next c _ =>
      obtain rfl := Except.ok.inj h
      have hc := c.valid
      simp only [UInt32.isValidChar, Nat.isValidChar] at hc
      show -2147483648 ≤ (c.val.toNat : Int) ∧ (c.val.toNat : Int) < 2147483648
      omega
    next => cases h
  next => cases h

theorem loaded_eq_ok {type : Ty} {d : Datum} {v : Value} (h : loaded type d = .ok v) :
    (type = .int ∨ type = .reference) ∧ v = ⟨.int, d⟩ ∨ ∃ n, IsWord n ∧ v = .ofInt n := by
  unfold loaded at h
  split at h
  next => exact .inl ⟨.inl rfl, (Except.ok.inj h).symm⟩
  next => exact .inl ⟨.inr rfl, (Except.ok.inj h).symm⟩
  next =>
    obtain ⟨n, hn, h⟩ := bind_eq_ok.1 h
    exact .inr ⟨n, isWord_codePoint hn, (Except.ok.inj h).symm⟩
  next => cases h

theorem checkElement_int {v : Value} {u : Unit} (h : checkElement .int v = .ok u) :
    v.type = .int := by
  by_contra hne
  simp [checkElement, require, hne] at h

section Instructions

variable {lib : Library} {off : Bool} {s : State} (hs : s.HoldsWords)

include hs

theorem holdsWords_go {f : Frame} : State.HoldsWords { s with frame := f } ↔ f.HoldsWords :=
  ⟨fun h => h.frame, fun h => ⟨hs.heap, h, hs.callers⟩⟩

/-- What is pushed is all that can be no word. -/
theorem holdsWords_pushed {f : Frame} (hf : f.HoldsWords) {v : Value} :
    State.HoldsWords { s with frame := (f.push v).advance } ↔ v.HoldsWords := by
  rw [holdsWords_go hs, Frame.holdsWords_advance, Frame.holdsWords_push hf]

theorem keepsWords_go {f : Frame} (hf : f.HoldsWords) : Leads (.ok (go s f)) State.HoldsWords :=
  .running ((holdsWords_go hs).2 hf)

theorem keepsWords_push {f : Frame} (hf : f.HoldsWords) {v : Value} (hv : v.HoldsWords) :
    Leads (.ok (go s (f.push v).advance)) State.HoldsWords :=
  .running ((holdsWords_pushed hs hf).2 hv)

theorem keepsWords_load (i : Int) : Leads (load s i) State.HoldsWords :=
  .bind fun _ hv => keepsWords_push hs hs.frame (hs.frame.lookup (Locals.get_eq_ok.1 hv))

theorem keepsWords_dup : Leads (dup s) State.HoldsWords := by
  refine .bind fun v hv => keepsWords_push hs hs.frame (hs.frame.stack v ?_)
  cases hst : s.frame.stack with
  | nil => simp [hst, Stack.peek] at hv
  | cons w st =>
    rw [hst] at hv
    obtain rfl := Except.ok.inj hv
    simp

theorem keepsWords_store (i : Int) : Leads (store s i) State.HoldsWords := by
  refine .bind fun ⟨v, f⟩ hv => keepsWords_go hs ?_
  obtain ⟨hword, hf⟩ := hs.frame.pop hv
  exact Frame.holdsWords_advance.2 ((Frame.holdsWords_set hf i).2 hword)

theorem keepsWords_branch {f : Frame} (hf : f.HoldsWords) (c : String) (target : Int)
    (a b : Datum) :
    Leads (branch s f c target a b) State.HoldsWords := by
  refine .bind fun jumps _ => keepsWords_go hs ?_
  cases jumps with
  | false => exact Frame.holdsWords_advance.2 hf
  | true => exact ⟨hf.stack, hf.locals⟩

theorem keepsWords_compare (c : String) (target : Int) :
    Leads (compare s c target) State.HoldsWords :=
  .bind fun _ hw => .bind fun _ hv => keepsWords_branch hs ((hs.frame.pop hw).2.pop hv).2 _ _ _ _

theorem keepsWords_compareZero (c : String) (target : Int) :
    Leads (compareZero s c target) State.HoldsWords :=
  .bind fun _ hv => keepsWords_branch hs (hs.frame.pop hv).2 _ _ _ _

theorem keepsWords_cast (source target : Ty) : Leads (cast s source target) State.HoldsWords := by
  unfold cast
  split
  next =>
    refine .bind fun ⟨v, f⟩ hv => ?_
    obtain ⟨hword, hf⟩ := hs.frame.pop hv
    exact keepsWords_push hs hf (Value.holdsWords_of_ne hword.content nofun nofun)
  next => exact .error

theorem keepsWords_getField (field : FieldRef) : Leads (getField s field) State.HoldsWords := by
  refine .bind fun ⟨r, f⟩ hr => .ite (fun _ => .ended) fun _ => .bind fun o ho => ?_
  obtain ⟨-, hf⟩ := hs.frame.pop hr
  cases o with
  | none => exact .error
  | some o =>
    have hobject : o.HoldsWords := hs.find ho
    refine .bind fun d hd => ?_
    have hfield : d.HoldsWords := hobject.field hd
    split
    next => exact keepsWords_push hs hf hfield
    next => exact keepsWords_push hs hf (Value.holdsWords_of_ne hfield nofun nofun)

theorem keepsWords_putField (field : FieldRef) : Leads (putField s field) State.HoldsWords := by
  refine .bind fun ⟨v, f₁⟩ hv => .bind fun ⟨r, f₂⟩ hr => .ite (fun _ => .lost) fun _ =>
    .bind fun ⟨ref, o⟩ ho => ?_
  obtain ⟨hvalue, hf₁⟩ := hs.frame.pop hv
  obtain ⟨-, hf₂⟩ := hf₁.pop hr
  have hobject : o.HoldsWords := hs.fetch ho
  dsimp only
  split
  next es hes =>
    obtain ⟨type, content⟩ := o
    obtain rfl : content = .record es := hes
    have hentries := ClassFile.forall_setEntry (P := Datum.HoldsWords) hvalue
      (Datum.entriesHoldWords_iff.1 hobject.content) (Label.shown field.name)
    refine .running ⟨(Heap.forall_put hs.heap _ _).2 ?_, Frame.holdsWords_advance.2 hf₂, hs.callers⟩
    refine ⟨fun hint => ?_, nofun, Datum.entriesHoldWords_iff.2 hentries⟩
    obtain ⟨n, hn, -⟩ := hobject.1 hint
    cases hn
  next => exact keepsWords_go hs (Frame.holdsWords_advance.2 hf₂)

theorem keepsWords_call {caller : Frame} (hcaller : caller.HoldsWords) {args : List Value}
    (hargs : ∀ v ∈ args, v.HoldsWords) (m : MethodRef) :
    Leads (call s caller m args) State.HoldsWords := by
  unfold call
  split
  next =>
    refine .running
      ⟨hs.heap, ⟨by simp [Frame.enter], fun e he => hargs e.2 (Locals.mem_ofList he)⟩, ?_⟩
    exact List.forall_mem_cons.2 ⟨hcaller, hs.callers⟩
  next => exact .error

theorem keepsWords_invokeStatic (m : MethodRef) : Leads (invokeStatic s m) State.HoldsWords := by
  refine .bind fun ⟨args, f⟩ hpop => ?_
  obtain ⟨hargs, hf⟩ := hs.frame.popMany hpop
  exact keepsWords_call hs hf (fun v hv => hargs v (List.mem_reverse.1 hv)) m

theorem keepsWords_invokeOn (m : MethodRef) : Leads (invokeOn s m) State.HoldsWords := by
  refine .bind fun ⟨args, f⟩ hpop => ?_
  obtain ⟨hargs, hf⟩ := hs.frame.popMany hpop
  exact keepsWords_call hs hf hargs m

theorem keepsWords_invokeSpecial (m : MethodRef) : Leads (invokeSpecial s m) State.HoldsWords := by
  refine .bind fun root _ => ?_
  cases root with
  | false => exact keepsWords_invokeOn hs m
  | true => exact keepsWords_go hs (Frame.holdsWords_advance.2 hs.frame)

theorem keepsWords_ret (type : Option Ty) : Leads (ret s type) State.HoldsWords := by
  unfold ret
  cases hcallers : s.callers with
  | nil => exact .ended
  | cons caller callers =>
    have hall := hs.callers
    rw [hcallers] at hall
    obtain ⟨hcaller, hrest⟩ := List.forall_mem_cons.1 hall
    cases type with
    | none => exact .running ⟨hs.heap, Frame.holdsWords_advance.2 hcaller, hrest⟩
    | some type =>
      refine .bind fun ⟨v, f⟩ hv => .running ⟨hs.heap, ?_, hrest⟩
      exact Frame.holdsWords_advance.2 ((Frame.holdsWords_push hcaller).2 (hs.frame.pop hv).1)

theorem holdsWords_binary (a : Arith) :
    Leads (binary s a) fun t => t.HoldsWords ↔ ¬ Exceeds lib off s (.binary .int a) := by
  refine .bind fun ⟨w, f₁⟩ hw => .bind fun ⟨v, f₂⟩ hv => .bind fun _ _ => .bind fun _ _ => ?_
  refine .ite (fun _ => .ended) fun _ => .bind fun x hx => .bind fun y hy => ?_
  have hstack : s.frame.stack = w :: v :: f₂.stack := by
    rw [(Frame.pop_eq_ok hw).1, (Frame.pop_eq_ok hv).1]
  have hf := ((hs.frame.pop hw).2.pop hv).2
  rw [number_eq_ok] at hx hy
  split
  next z hz =>
    refine .running ?_
    rw [holdsWords_pushed hs hf, Value.holdsWords_ofInt]
    constructor
    · intro hword hexc
      cases hexc with
      | result hstack' hx' hy' hz' h =>
        obtain ⟨rfl, rfl, -⟩ := by simpa using hstack.symm.trans hstack'
        obtain rfl := Option.some.inj (hx.symm.trans hx')
        obtain rfl := Option.some.inj (hy.symm.trans hy')
        obtain rfl := Option.some.inj (hz.symm.trans hz')
        exact h hword
    · intro h
      by_contra hword
      exact h (.result hstack hx hy hz hword)
  next => exact .ended

theorem holdsWords_increment (n a : Whole) :
    Leads (increment s n.val a.val) fun t => t.HoldsWords ↔ ¬ Exceeds lib off s (.incr n a) := by
  refine .bind fun v hv => .bind fun _ _ => .bind fun x hx => .running ?_
  rw [Locals.get_eq_ok] at hv
  rw [number_eq_ok] at hx
  rw [holdsWords_go hs, Frame.holdsWords_advance, Frame.holdsWords_set hs.frame,
    Value.holdsWords_ofInt]
  constructor
  · intro hword hexc
    cases hexc with
    | sum hv' hx' h =>
      obtain rfl := Option.some.inj (hv.symm.trans hv')
      obtain rfl := Option.some.inj (hx.symm.trans hx')
      exact h hword
  · intro h
    by_contra hword
    exact h (.sum hv hx hword)

theorem holdsWords_getStatic (field : FieldRef) :
    Leads (getStatic lib off s field) fun t => t.HoldsWords ↔
      ¬ Exceeds lib off s (.get true field) := by
  unfold getStatic
  refine .ite (fun hoff => ?_) fun hoff => ?_
  · refine .bind fun v hv => .running ?_
    obtain rfl := Except.ok.inj hv
    rw [holdsWords_pushed hs hs.frame]
    refine iff_of_true ⟨nofun, nofun, trivial⟩ fun hexc => ?_
    cases hexc with
    | constant hoff' => simp [hoff] at hoff'
  · refine .bind fun c hc => .bind fun v hv => .running ?_
    rw [Bool.not_eq_true] at hoff
    rw [holdsWords_pushed hs hs.frame]
    constructor
    · intro hword hexc
      cases hexc with
      | constant _ hc' hn h =>
        obtain rfl := Except.ok.inj (hc.symm.trans hc')
        obtain rfl := Except.ok.inj (hv.symm.trans hn)
        exact h (Value.holdsWords_ofInt.1 hword)
    · intro h
      rcases ClassFile.staticField_eq_ok hv with hword | ⟨n, rfl⟩
      · exact hword
      · rw [Value.holdsWords_ofInt]
        by_contra hword
        exact h (.constant hoff hc hv hword)

/-- A reference to a new entry is a number as well. -/
theorem holdsWords_reference {heap : Heap} (hheap : ∀ e ∈ heap.entries, e.2.HoldsWords) {f : Frame}
    (hf : f.HoldsWords) {r : Int} :
    State.HoldsWords ⟨heap, (f.push (.ofInt r)).advance, s.callers⟩ ↔ IsWord r := by
  rw [← Value.holdsWords_ofInt, ← Frame.holdsWords_push hf, ← Frame.holdsWords_advance]
  exact ⟨fun h => h.frame, fun h => ⟨hheap, h, hs.callers⟩⟩

theorem holdsWords_new (owner : Label) :
    Leads (new lib s owner) fun t => t.HoldsWords ↔ ¬ Exceeds lib off s (.new owner) := by
  refine .bind fun _ _ => .ite (fun _ => .ended) fun _ => .bind fun v hv => .running ?_
  have hobject : v.HoldsWords := Library.holdsWords_newObject hv
  refine (holdsWords_reference hs ((Heap.forall_put hs.heap _ _).2 hobject) hs.frame).trans ?_
  rw [exceeds_new_iff, not_not]

theorem holdsWords_newArray (type : Ty) (d : Whole) :
    Leads (newArray s type) fun t => t.HoldsWords ↔ ¬ Exceeds lib off s (.newArray type d) := by
  refine .bind fun _ _ => .bind fun ⟨size, f⟩ hsize => .bind fun _ _ => .bind fun n _ => .running ?_
  have hrow : (Value.ofArray type (zeros n)).HoldsWords := holdsWords_zeros type n
  refine (holdsWords_reference hs ((Heap.forall_put hs.heap _ _).2 hrow)
    (hs.frame.pop hsize).2).trans ?_
  rw [exceeds_newArray_iff, not_not]

theorem holdsWords_newMatrix (type : Ty) (d : Whole) :
    Leads (newMatrix s type) fun t => t.HoldsWords ↔ ¬ Exceeds lib off s (.newArray type d) := by
  refine .bind fun ⟨d₂, f₁⟩ h₂ => .bind fun ⟨d₁, f₂⟩ h₁ => .bind fun _ _ => .bind fun _ _ =>
    .bind fun rows _ => .ite (fun _ => .ended) fun _ => .bind fun columns _ =>
      .ite (fun _ => .ended) fun _ => .running ?_
  have hf := ((hs.frame.pop h₂).2.pop h₁).2
  have hput := holdsWords_putMatrix hs.heap type rows.toNat columns
  refine (holdsWords_reference hs hput hf).trans ?_
  rw [exceeds_newArray_iff, not_not]

theorem holdsWords_arrayLength :
    Leads (arrayLength s) fun t => t.HoldsWords ↔ ¬ Exceeds lib off s .arrayLength := by
  refine .bind fun ⟨r, f⟩ hr => .ite (fun _ => .ended) fun _ => .bind fun ⟨k, v⟩ hv =>
    .bind fun xs hxs => .running ?_
  rw [elements_eq_ok] at hxs
  rw [holdsWords_pushed hs (hs.frame.pop hr).2, Value.holdsWords_ofInt]
  have hstack := (Frame.pop_eq_ok hr).1
  constructor
  · intro hword hexc
    cases hexc with
    | length hstack' hv' hxs' h =>
      obtain ⟨rfl, -⟩ := by simpa using hstack.symm.trans hstack'
      obtain ⟨-, rfl⟩ := by simpa using hv.symm.trans hv'
      obtain rfl := Option.some.inj (hxs.symm.trans hxs')
      exact h hword
  · intro h
    by_contra hword
    exact h (.length hstack hv hxs hword)

theorem holdsWords_arrayLoad (type : Ty) :
    Leads (arrayLoad s type) fun t => t.HoldsWords ↔ ¬ Exceeds lib off s (.arrayLoad type) := by
  refine .bind fun ⟨index, f₁⟩ hindex => .bind fun ⟨r, f₂⟩ hr => .bind fun _ _ =>
    .bind fun _ _ => ?_
  refine .bind fun ⟨k, v⟩ hv => .bind fun xs hxs => .bind fun i hi =>
    .ite (fun _ => .ended) fun _ => ?_
  refine .bind fun d hd => .bind fun w hw => .running ?_
  rw [elements_eq_ok] at hxs
  rw [number_eq_ok] at hi
  have hf := ((hs.frame.pop hindex).2.pop hr).2
  have harray : v.HoldsWords := hs.fetch hv
  have hstack : s.frame.stack = index :: r :: f₂.stack := by
    rw [(Frame.pop_eq_ok hindex).1, (Frame.pop_eq_ok hr).1]
  rw [holdsWords_pushed hs hf]
  constructor
  · intro hword hexc
    cases hexc with
    | element htype hstack' hv' _ hxs' hi' hd' h =>
      obtain ⟨rfl, rfl, -⟩ := by simpa using hstack.symm.trans hstack'
      obtain ⟨-, rfl⟩ := by simpa using hv.symm.trans hv'
      obtain rfl := Option.some.inj (hxs.symm.trans hxs')
      obtain rfl := Option.some.inj (hi.symm.trans hi')
      obtain rfl := Except.ok.inj (hd.symm.trans hd')
      rcases htype with rfl | rfl
      all_goals
        obtain rfl := Except.ok.inj hw
        exact h (Value.holdsWords_int.1 hword)
  · intro h
    rcases loaded_eq_ok hw with ⟨htype, rfl⟩ | ⟨n, hn, rfl⟩
    · rw [Value.holdsWords_int]
      by_contra hword
      exact h
        (.element htype hstack hv (harray.members hxs (mem_of_elementAt hd) hword) hxs hi hd hword)
    · exact Value.holdsWords_ofInt.2 hn

theorem holdsWords_arrayStore (type : Ty) :
    Leads (arrayStore s type) fun t => t.HoldsWords ↔ ¬ Exceeds lib off s (.arrayStore type) := by
  refine .bind fun ⟨stored, f₁⟩ hstored => .bind fun ⟨index, f₂⟩ hindex =>
    .bind fun ⟨r, f₃⟩ hr => ?_
  refine .ite (fun _ => .ended) fun _ => .bind fun _ _ => .bind fun _ _ => .bind fun i hi => ?_
  refine .ite (fun _ => .ended) fun hneg => .bind fun ⟨k, v⟩ hv => .bind fun xs hxs => ?_
  refine .ite (fun _ => .ended) fun hle => .bind fun _ hcheck => .running ?_
  rw [elements_eq_ok] at hxs
  rw [number_eq_ok] at hi
  obtain ⟨hvalue, hf₁⟩ := hs.frame.pop hstored
  have hf := ((hf₁.pop hindex).2.pop hr).2
  have harray : v.HoldsWords := hs.fetch hv
  have hstack : s.frame.stack = stored :: index :: r :: f₃.stack := by
    rw [(Frame.pop_eq_ok hstored).1, (Frame.pop_eq_ok hindex).1, (Frame.pop_eq_ok hr).1]
  have hiff : State.HoldsWords { s with
        heap := s.heap.put k (.ofArray type (xs.set i.toNat stored.content))
        frame := f₃.advance } ↔
      (Value.ofArray type (xs.set i.toNat stored.content)).HoldsWords :=
    ⟨fun h => (Heap.forall_put hs.heap _ _).1 h.heap,
      fun h => ⟨(Heap.forall_put hs.heap _ _).2 h, Frame.holdsWords_advance.2 hf, hs.callers⟩⟩
  refine hiff.trans ?_
  constructor
  · intro hword hexc
    cases hexc with
    | member hstack' hv' _ hxs' hi' hx hj h =>
      obtain ⟨rfl, rfl, rfl, -⟩ := by simpa using hstack.symm.trans hstack'
      obtain ⟨-, rfl⟩ := by simpa using hv.symm.trans hv'
      obtain rfl := Option.some.inj (hxs.symm.trans hxs')
      obtain rfl := Option.some.inj (hi.symm.trans hi')
      rw [← List.getElem?_set_ne hj.symm] at hx
      exact h (hword.2.1 rfl _ rfl _ (List.mem_of_getElem? hx))
  · intro h
    refine Value.holdsWords_ofArray fun htype x hx => ?_
    subst htype
    obtain ⟨j, hj⟩ := List.getElem?_of_mem hx
    by_contra hword
    by_cases hij : i.toNat = j
    · subst hij
      have hlt : i.toNat < xs.length := by omega
      rw [List.getElem?_set_self hlt] at hj
      obtain rfl := Option.some.inj hj
      exact hword (hvalue.1 (checkElement_int hcheck))
    · rw [List.getElem?_set_ne hij] at hj
      refine h (.member hstack hv (harray.members hxs (List.mem_of_getElem? hj) hword) hxs hi hj
        (Ne.symm hij) hword)

omit hs in
theorem Leads.notExceeds {x : Except Fault Outcome} {op : Op} (h : Leads x State.HoldsWords)
    (hop : ¬ Exceeds lib off s op) : Leads x fun t => t.HoldsWords ↔ ¬ Exceeds lib off s op :=
  fun t ht => iff_of_true (h t ht) hop

theorem holdsWords_exec (i : Instr) :
    Leads (exec lib off s i) fun t => t.HoldsWords ↔ ¬ Exceeds lib off s i.op := by
  obtain ⟨offset, op⟩ := i
  cases op with
  | push v =>
    refine .running ?_
    rw [holdsWords_pushed hs hs.frame]
    refine ⟨fun hword hexc => ?_, fun h => by_contra fun hword => h (.literal hword)⟩
    cases hexc with
    | literal h => exact h hword
  | load type n =>
    cases type with
    | int => exact (keepsWords_load hs _).notExceeds nofun
    | reference => exact (keepsWords_load hs _).notExceeds nofun
    | _ => exact .error
  | binary type a =>
    cases type with
    | int => exact holdsWords_binary hs a
    | _ => exact .error
  | incr n a => exact holdsWords_increment hs n a
  | dup w => exact .ite (fun _ => (keepsWords_dup hs).notExceeds nofun) fun _ => .error
  | get isStatic f =>
    cases isStatic with
    | true => exact holdsWords_getStatic hs f
    | false => exact (keepsWords_getField hs f).notExceeds nofun
  | ret type => exact (keepsWords_ret hs type).notExceeds nofun
  | compare c t => exact (keepsWords_compare hs c _).notExceeds nofun
  | compareZero c t => exact (keepsWords_compareZero hs c _).notExceeds nofun
  | new owner => exact holdsWords_new hs owner
  | store type n => exact (keepsWords_store hs _).notExceeds nofun
  | newArray type d =>
    exact .ite (fun _ => holdsWords_newArray hs type d) fun _ =>
      .ite (fun _ => holdsWords_newMatrix hs type d) fun _ => .error
  | arrayStore type => exact holdsWords_arrayStore hs type
  | arrayLoad type => exact holdsWords_arrayLoad hs type
  | arrayLength => exact holdsWords_arrayLength hs
  | invokeStatic m => exact (keepsWords_invokeStatic hs m).notExceeds nofun
  | invokeSpecial m isInterface => exact (keepsWords_invokeSpecial hs m).notExceeds nofun
  | invokeVirtual m => exact (keepsWords_invokeOn hs m).notExceeds nofun
  | goto t =>
    have hjump : (s.frame.jump t.val).HoldsWords := ⟨hs.frame.stack, hs.frame.locals⟩
    exact (keepsWords_go hs hjump).notExceeds nofun
  | cast a b => exact (keepsWords_cast hs a b).notExceeds nofun
  | put isStatic f =>
    cases isStatic with
    | true => exact .error
    | false => exact (keepsWords_putField hs f).notExceeds nofun
  | invokeInterface m size => exact .error
  | throw => exact .error

end Instructions

/-- The next step gives a number that is no word. -/
def Overflows (lib : Library) (off : Bool) (s : State) : Prop :=
  ∃ i t, fetch lib s.frame.place = .ok i ∧ step lib off s = .ok (.running t) ∧
    Exceeds lib off s i.op

section Run

variable {lib : Library} {off : Bool} {s t : State}

theorem step_holdsWords (hs : s.HoldsWords) (h : step lib off s = .ok (.running t)) :
    t.HoldsWords ↔ ¬ Overflows lib off s := by
  obtain ⟨i, hi, hexec⟩ := exec_of_step h
  refine Iff.trans (holdsWords_exec hs i t hexec) (not_congr ?_)
  constructor
  · exact fun hexc => ⟨i, t, hi, h, hexc⟩
  · rintro ⟨j, -, hj, -, hexc⟩
    obtain rfl := Except.ok.inj (hi.symm.trans hj)
    exact hexc

theorem after_holdsWords_iff (hs : s.HoldsWords) (n : Nat) :
    (∀ k ≤ n, ∀ t, after lib off k s = some t → t.HoldsWords) ↔
      ∀ k < n, ∀ t, after lib off k s = some t → ¬ Overflows lib off t := by
  induction n generalizing s with
  | zero =>
    refine iff_of_true (fun k hk t ht => ?_) (fun k hk => absurd hk k.not_lt_zero)
    obtain rfl := Nat.le_zero.1 hk
    obtain rfl := Option.some.inj ht
    exact hs
  | succ n ih =>
    by_cases hstep : ∃ t, step lib off s = .ok (.running t)
    · obtain ⟨t, hstep⟩ := hstep
      have hlater : ∀ k, after lib off (k + 1) s = after lib off k t := after_succ hstep
      constructor
      · intro h k hk u hu
        have ht : t.HoldsWords := h 1 (by omega) t (hlater 0)
        cases k with
        | zero =>
          obtain rfl := Option.some.inj hu
          exact (step_holdsWords hs hstep).1 ht
        | succ k =>
          rw [hlater] at hu
          refine (ih ht).1 (fun j hj w hw => h (j + 1) (by omega) w ?_) k (by omega) u hu
          rw [hlater, hw]
      · intro h k hk u hu
        have ht : t.HoldsWords := (step_holdsWords hs hstep).2 (h 0 (by omega) s rfl)
        cases k with
        | zero =>
          obtain rfl := Option.some.inj hu
          exact hs
        | succ k =>
          rw [hlater] at hu
          refine (ih ht).2 (fun j hj w hw => h (j + 1) (by omega) w ?_) k (by omega) u hu
          rw [hlater, hw]
    · -- the run has no other state than this one
      refine iff_of_true (fun k hk t ht => ?_) (fun k hk t ht hover => ?_)
      · cases k with
        | zero =>
          obtain rfl := Option.some.inj ht
          exact hs
        | succ k =>
          obtain ⟨u, hu, -⟩ := after_first ht
          exact absurd ⟨u, hu⟩ hstep
      · cases k with
        | zero =>
          obtain rfl := Option.some.inj ht
          obtain ⟨-, u, -, hu, -⟩ := hover
          exact hstep ⟨u, hu⟩
        | succ k =>
          obtain ⟨u, hu, -⟩ := after_first ht
          exact hstep ⟨u, hu⟩

theorem holdsWords_startInts {args : List Int} (h : ∀ n ∈ args, IsWord n) (method : MethodId) :
    (startInts method args).HoldsWords := by
  refine ⟨nofun, ⟨by simp [startInts, Ints.frame], fun e he => ?_⟩, nofun⟩
  obtain ⟨e, hmem, rfl⟩ := List.mem_map.1 he
  exact Value.holdsWords_ofInt.2 (h e.2 (Locals.mem_ofList hmem))

end Run

/-- No number is wrapped: the Ints of a run stay words exactly until a step gives one that is none.
A remainder never does, and a quotient only at the least word and -1. -/
theorem words_until_overflow (lib : Library) (off : Bool) (s : State)
    (hs : s.HoldsWords) (n : Nat) :
    ((∀ k ≤ n, ∀ t, after lib off k s = some t → t.HoldsWords) ↔
      ∀ k < n, ∀ t, after lib off k s = some t → ¬ Overflows lib off t) ∧
    ∀ a : Arith, ∀ x y z, IsWord x → IsWord y → a.eval x y = some z →
      (a = .rem → IsWord z) ∧ (a = .div → (IsWord z ↔ ¬ (x = -2147483648 ∧ y = -1))) :=
  ⟨after_holdsWords_iff hs n, fun _ _ _ _ => Arith.isWord_eval⟩

theorem not_holdsWords_square :
    ∃ t, after (single squareId squareCode) false 3 (startInts squareId [65536]) = some t ∧
      ¬ t.HoldsWords := by
  refine ⟨_, after_square (by decide +kernel), fun h => ?_⟩
  have hword := h.frame.stack (.ofInt (65536 * 65536)) (by simp [Ints.frame])
  exact absurd (Value.holdsWords_ofInt.1 hword) (by decide)

theorem words_until_overflow_square :
    (startInts squareId [65536]).HoldsWords ∧
      ∃ k < 3, ∃ t,
        after (single squareId squareCode) false k (startInts squareId [65536]) = some t ∧
        Overflows (single squareId squareCode) false t := by
  have hs : (startInts squareId [65536]).HoldsWords := holdsWords_startInts (by decide) squareId
  refine ⟨hs, ?_⟩
  by_contra hnone
  have hwords := (words_until_overflow (single squareId squareCode) false _ hs 3).1.2
    fun k hk t ht hover => hnone ⟨k, hk, t, ht, hover⟩
  obtain ⟨t, ht, hnot⟩ := not_holdsWords_square
  exact hnot (hwords 3 le_rfl t ht)

/-- The square of a word that is a number of 33 bits. -/
theorem square_exceeds_word :
    IsWord 65536 ∧
    ∃ t, after (single squareId squareCode) false 3 (startInts squareId [65536]) = some t ∧
      t.frame.stack = [.ofInt 4294967296] ∧ ¬ IsWord 4294967296 :=
  ⟨by decide, _, after_square (by decide +kernel), rfl, by decide⟩

end Machine

end Assay
