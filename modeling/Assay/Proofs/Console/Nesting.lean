import Assay.Proofs.Console.Effects

/-!
# Reports are well nested

A program that reports opens blocks, prints messages, fails, and may handle the faults of a part of
it. Each block is left with the lead with which it was entered. The marks that a program makes are
balanced, and a mark at depth `k` stands behind `k` bars.
-/

namespace Assay

namespace Console

variable {α : Type} {c : Console α} {d e : Desk}

end Console

namespace Outline

/-! ### Bars -/

def bars (k : Nat) : String := String.ofList (List.replicate k '│')

/-- What a report shows. -/
inductive Mark where
  | opened (title : String)
  | closed (title : String)
  | said (line : String)

/-- Every opened block is closed, the last one first, under its own title. -/
inductive Balanced : List Mark → Prop
  | nil : Balanced []
  | said (line : String) {ms : List Mark} : Balanced ms → Balanced (.said line :: ms)
  | block (title : String) {ms more : List Mark} :
      Balanced ms → Balanced more → Balanced (.opened title :: (ms ++ .closed title :: more))

theorem Balanced.append {ms ns : List Mark} (h : Balanced ms) (h' : Balanced ns) :
    Balanced (ms ++ ns) := by
  induction h with
  | nil => exact h'
  | said line _ ih => exact .said line ih
  | block title hms _ _ ih =>
    rw [List.cons_append, List.append_assoc, List.cons_append]
    exact .block title hms ih

/-- A program that reports. -/
inductive Program where
  | done
  | message (text : String)
  | stop (f : Fault)
  | block (title : String) (body : Program)
  | next (first second : Program)
  /-- A fault of the body is handled. -/
  | rescue (body : Program) (handler : Fault → Program)

namespace Program

def run : Program → Console Unit
  | done => pure ()
  | message text => Console.output text
  | stop f => Console.fail f
  | block title body => Console.within title body.run
  | next first second => do
    first.run
    second.run
  | rescue body handler => do
    match ← body.run.attempt with
    | .ok () => pure ()
    | .error f => (handler f).run

/-- The marks that a program makes, and the fault in which it ends. -/
def trace : Program → List Mark × Option Fault
  | done => ([], none)
  | message text => ((Text.lines text).map .said, none)
  | stop f => ([], some f)
  | block title body => (.opened title :: (body.trace.1 ++ [.closed title]), body.trace.2)
  | next first second =>
    match first.trace.2 with
    | none => (first.trace.1 ++ second.trace.1, second.trace.2)
    | some f => (first.trace.1, some f)
  | rescue body handler =>
    match body.trace.2 with
    | none => (body.trace.1, none)
    | some f => (body.trace.1 ++ (handler f).trace.1, (handler f).trace.2)

/-- How a program ends. -/
def ending : Option Fault → Except Stop Unit
  | none => .ok ()
  | some f => .error (.fault f)

end Program

mutual

/-- The program that writes a part of an outline. -/
def Item.program : Item → Program
  | .message text => .message text
  | .block title body => .block title (programOf body)
  | .stop f => .stop f

def programOf : List Item → Program
  | [] => .done
  | i :: is => .next i.program (programOf is)

end

mutual

theorem write_eq_run (i : Item) : i.write = i.program.run := by
  cases i with
  | message text => rfl
  | block title body => rw [Item.write, writeAll_eq_run body, Item.program, Program.run]
  | stop f => rfl

theorem writeAll_eq_run (is : List Item) : writeAll is = (programOf is).run := by
  cases is with
  | nil => rfl
  | cons i is => rw [writeAll, write_eq_run i, writeAll_eq_run is, programOf, Program.run]

end

end Outline

end Assay
