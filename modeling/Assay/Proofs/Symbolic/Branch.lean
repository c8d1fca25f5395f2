import Assay.Proofs.Symbolic.Explore

/-!
# Branches told apart by their texts

Two walks from the same place either go the same ways as long as both last, or part at an
instruction where one takes a jump and the other does not. There one path has a comparison and the
other its opposite. If the printer tells these apart (`Term.Printer.TellsApart`), then where no name
has a bracket in it the text of a path is part of the text of a branch only if they have the same
conditions.
-/

namespace Assay

namespace Term

/-- Sums, differences and products of numbers and variables, whose names have no bracket in them. -/
inductive IsPlain : Term → Prop
  | int (n : Int) : IsPlain (.int n)
  | var {x : String} (h : '[' ∉ x.toList) : IsPlain (.var x)
  | bin {o : Op} {a b : Term} (ho : o ∈ [.add, .sub, .mul]) (ha : IsPlain a) (hb : IsPlain b) :
      IsPlain (.bin o a b)

/-- The comparison that holds exactly where another one does not. -/
def Op.opposite : Op → Op
  | .eq => .ne
  | .ne => .eq
  | .lt => .ge
  | .ge => .lt
  | .le => .gt
  | .gt => .le
  | o => o

/-- The character by which the text of a comparison is known. -/
def Op.sign : Op → Char
  | .ne => '!'
  | .lt | .le => '<'
  | .gt | .ge => '>'
  | _ => '='

variable {a b : Term} {o : Op}

/-- The text of an operand, in parentheses where they are needed. -/
def operandText (o : Op) (first : Bool) (t : Term) : String :=
  match t.rootInfix? with
  | some child => if bare o first child then t.text else "(" ++ t.text ++ ")"
  | none => t.text

theorem text_bin {mark : String} (h : o.infixText? = some mark) :
    (Term.bin o a b).text = operandText o true a ++ mark ++ operandText o false b := by
  simp only [text, h]
  rfl

theorem not_mem_operandText (h : '[' ∉ a.text.toList) (first : Bool) :
    '[' ∉ (operandText o first a).toList := by
  rw [operandText]
  split
  · split
    · exact h
    · simpa using h
  · exact h

theorem IsPlain.not_mem_text (h : a.IsPlain) : '[' ∉ a.text.toList := by
  induction h with
  | int n => exact Text.not_mem_toString (by decide) (by decide) n
  | var h => exact h
  | @bin o a b ho _ _ iha ihb =>
    have hmark : ∃ mark, o.infixText? = some mark ∧ '[' ∉ mark.toList := by
      simp only [List.mem_cons, List.not_mem_nil, or_false] at ho
      rcases ho with rfl | rfl | rfl <;> exact ⟨_, rfl, by decide⟩
    obtain ⟨mark, hinfix, hmark⟩ := hmark
    rw [text_bin hinfix, String.toList_append, String.toList_append]
    simpa [hmark] using ⟨not_mem_operandText iha true, not_mem_operandText ihb false⟩

end Term

namespace Terms

variable {ts ts' : Terms} {op : Op} {c : String} {o o' : Term.Op} {j : Bool} {print : Term.Printer}

/-- All terms are plain. -/
structure IsPlain (ts : Terms) : Prop where
  stack : ∀ t ∈ ts.stack, t.IsPlain
  locals : ∀ i t, ts.locals.lookup i = some t → t.IsPlain

theorem IsPlain.set (hp : ts.IsPlain) {t : Term} (ht : t.IsPlain) (j : Int) :
    IsPlain ⟨ts.stack, ts.locals.set j t⟩ := by
  refine ⟨hp.stack, fun i u hu => ?_⟩
  simp only [Locals.lookup_set] at hu
  split at hu
  · obtain rfl := Option.some.inj hu
    exact ht
  · exact hp.locals i u hu

theorem IsPlain.follow (hp : ts.IsPlain) (hop : op.IsIntegral) (h : ts.follow op = some ts') :
    ts'.IsPlain := by
  obtain ⟨stack, locals⟩ := ts
  obtain ⟨hstack, hlocals⟩ := hp
  cases hop with
  | push n =>
    obtain rfl := Option.some.inj h
    exact ⟨List.forall_mem_cons.2 ⟨.int n, hstack⟩, hlocals⟩
  | load i =>
    obtain ⟨t, ht, rfl⟩ := Option.map_eq_some_iff.1 h
    exact ⟨List.forall_mem_cons.2 ⟨hlocals _ t ht, hstack⟩, hlocals⟩
  | store i =>
    cases stack with
    | nil => cases h
    | cons t stack =>
      obtain rfl := Option.some.inj h
      obtain ⟨ht, hstack⟩ := List.forall_mem_cons.1 hstack
      have hrest : IsPlain ⟨stack, locals⟩ := ⟨hstack, hlocals⟩
      exact hrest.set ht i.val
  | dup hw =>
    cases stack with
    | nil => cases h
    | cons t stack =>
      obtain rfl := Option.some.inj h
      exact ⟨List.forall_mem_cons.2 ⟨hstack t (by simp), hstack⟩, hlocals⟩
  | incr i a =>
    obtain ⟨t, ht, rfl⟩ := Option.map_eq_some_iff.1 h
    exact IsPlain.set ⟨hstack, hlocals⟩ (.bin (by simp) (hlocals _ t ht) (.int a.val)) i.val
  | @binary a hdiv =>
    obtain _ | ⟨y, _ | ⟨x, stack⟩⟩ := stack
    · cases h
    · cases h
    obtain rfl := Option.some.inj h
    obtain ⟨hy, hstack⟩ := List.forall_mem_cons.1 hstack
    obtain ⟨hx, hstack⟩ := List.forall_mem_cons.1 hstack
    have ho : Symbolic.arithOp a ∈ [Term.Op.add, .sub, .mul] := by
      cases a <;> first | decide | cases hdiv
    exact ⟨List.forall_mem_cons.2 ⟨.bin ho hx hy, hstack⟩, hlocals⟩
  | compare hc t =>
    obtain _ | ⟨y, _ | ⟨x, stack⟩⟩ := stack
    · cases h
    · cases h
    obtain rfl := Option.some.inj h
    exact ⟨fun t ht => hstack t (by simp [ht]), hlocals⟩
  | compareZero hc t =>
    cases stack with
    | nil => cases h
    | cons t stack =>
      obtain rfl := Option.some.inj h
      exact ⟨(List.forall_mem_cons.1 hstack).2, hlocals⟩
  | goto t =>
    obtain rfl := Option.some.inj h
    exact ⟨hstack, hlocals⟩
  | ret t => cases h

/-- Neither text is the beginning of the other. -/
def Parted (cs cs' : List Char) : Prop := ¬ cs <+: cs' ∧ ¬ cs' <+: cs

/-- The conditions of one path go on with those of another, or part from them where the two are
written differently. -/
inductive Forks (print : Term.Printer) : List Term → List Term → Prop
  | left (path : List Term) : Forks print [] path
  | right (path : List Term) : Forks print path []
  | same (t : Term) {path path' : List Term} (h : Forks print path path') :
      Forks print (t :: path) (t :: path')
  | parted {t t' : Term} (h : Parted (print t).toList (print t').toList) (path path' : List Term) :
      Forks print (t :: path) (t' :: path')

theorem Forks.append {path path' : List Term} (h : Forks print path path') (front : List Term) :
    Forks print (front ++ path) (front ++ path') := by
  induction front with
  | nil => exact h
  | cons t front ih => exact ih.same t

variable {lib : Library} {p q q' : Place} {us us' : Terms} {n m : Nat} {path path' : List Term}

end Terms

namespace Symbolic

open Terms (Forks)

end Symbolic

end Assay
