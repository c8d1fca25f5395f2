import Assay.Console.Outline

/-!
# What programs with a console do

`Does n c r calls edit`: wherever the program `c` starts after `n` calls, it ends with `r`, has
called the programs `calls` in this order, and has edited the files by `edit`. What it prints and
logs is left open. The number of calls matters since a program may reply otherwise when it is called
again.
-/

namespace Assay

namespace Console

/-- A command with the seconds that it is given. -/
abbrev Call : Type := List String × Option Nat

/-- Texts of files by path. -/
abbrev Files : Type := List (String × String)

end Console

open Console (Call Files)

/-- What a program leaves of a desk. -/
structure Desk.Becomes (d : Desk) (calls : List Call) (edit : Files → Files) (e : Desk) : Prop where
  lead : e.lead = d.lead
  calls : e.calls = d.calls ++ calls
  files : e.files = edit d.files

theorem Desk.Becomes.trans {d e f : Desk} {calls calls' : List Call} {edit edit' : Files → Files}
    (h : d.Becomes calls edit e) (h' : e.Becomes calls' edit' f) :
    d.Becomes (calls ++ calls') (edit' ∘ edit) f := by
  refine ⟨h'.lead.trans h.lead, ?_, ?_⟩
  · rw [h'.calls, h.calls, List.append_assoc]
  · rw [h'.files, h.files, Function.comp_apply]

theorem Desk.Becomes.length_calls {d e : Desk} {calls : List Call} {edit : Files → Files}
    (h : d.Becomes calls edit e) : e.calls.length = d.calls.length + calls.length := by
  rw [h.calls, List.length_append]

namespace Console

section Start

variable {α β : Type} {c : Console α} {f : α → Console β} {d e : Desk}

theorem start_bind_ok {a : α} (h : c.start d = (.ok a, e)) : (c >>= f).start d = (f a).start e := by
  simp only [start, ExceptT.run_bind, StateT.run_bind] at h ⊢
  rw [h]
  rfl

theorem start_bind_error {s : Stop} (h : c.start d = (.error s, e)) :
    (c >>= f).start d = (.error s, e) := by
  simp only [start, ExceptT.run_bind, StateT.run_bind] at h ⊢
  rw [h]
  rfl

end Start

variable {α β : Type} {n : Nat} {c : Console α} {f : α → Console β} {a : α} {r : Except Stop β}
  {calls calls' : List Call} {edit edit' : Files → Files}

def Does (n : Nat) (c : Console α) (r : Except Stop α) (calls : List Call)
    (edit : Files → Files) : Prop :=
  ∀ d : Desk, d.calls.length = n → ∃ e, c.start d = (r, e) ∧ d.Becomes calls edit e

/-- A program that neither calls another one nor edits a file. -/
abbrev Merely (c : Console α) (r : Except Stop α) : Prop := ∀ n, Does n c r [] id

theorem merely_of_start {r : Except Stop α}
    (h : ∀ d, ∃ e, c.start d = (r, e) ∧ e.lead = d.lead ∧ e.calls = d.calls ∧ e.files = d.files) :
    Merely c r := by
  intro n d hd
  obtain ⟨e, hstart, hlead, hcalls, hfiles⟩ := h d
  exact ⟨e, hstart, hlead, by rw [hcalls, List.append_nil], hfiles⟩

theorem merely_pure (a : α) : Merely (pure a) (.ok a) :=
  merely_of_start fun d => ⟨d, rfl, rfl, rfl, rfl⟩

theorem merely_fail (f : Fault) : Merely (fail f : Console α) (.error (.fault f)) :=
  merely_of_start fun d => ⟨d, rfl, rfl, rfl, rfl⟩

theorem merely_exit (code : Int) : Merely (exit code : Console α) (.error (.exit code)) :=
  merely_of_start fun d => ⟨d, rfl, rfl, rfl, rfl⟩

theorem merely_ofExcept {x : Except Fault α} (h : x = .ok a) : Merely (ofExcept x) (.ok a) := by
  rw [h]
  exact merely_pure a

theorem merely_say (level : Level) (text : String) : Merely (say level text) (.ok ()) :=
  merely_of_start fun _ => ⟨_, rfl, rfl, rfl, rfl⟩

theorem merely_output (message : String) : Merely (output message) (.ok ()) :=
  merely_of_start fun _ => ⟨_, rfl, rfl, rfl, rfl⟩

theorem Does.bind (h : Does n c (.ok a) calls edit)
    (h' : Does (n + calls.length) (f a) r calls' edit') :
    Does n (c >>= f) r (calls ++ calls') (edit' ∘ edit) := by
  intro d hd
  obtain ⟨e, he, hbecomes⟩ := h d hd
  obtain ⟨g, hg, hbecomes'⟩ := h' e (by rw [hbecomes.length_calls, hd])
  exact ⟨g, (start_bind_ok he).trans hg, hbecomes.trans hbecomes'⟩

theorem Does.bind_error {s : Stop} (h : Does n c (.error s) calls edit) :
    Does n (c >>= f) (.error s) calls edit := by
  intro d hd
  obtain ⟨e, he, hbecomes⟩ := h d hd
  exact ⟨e, start_bind_error he, hbecomes⟩

theorem Merely.bind_does (h : Merely c (.ok a)) (h' : Does n (f a) r calls edit) :
    Does n (c >>= f) r calls edit := Does.bind (h n) h'

theorem Merely.bind (h : Merely c (.ok a)) (h' : Merely (f a) r) : Merely (c >>= f) r :=
  fun n => h.bind_does (h' n)

theorem Does.bind_merely (h : Does n c (.ok a) calls edit) (h' : Merely (f a) r) :
    Does n (c >>= f) r calls edit := by
  have hboth := h.bind (h' _)
  rwa [List.append_nil] at hboth

/-- First the calls, then the edits. -/
theorem Does.bind_edit (h : Does n c (.ok a) calls id) (h' : ∀ n, Does n (f a) r [] edit) :
    Does n (c >>= f) r calls edit := by
  have hboth := h.bind (h' _)
  rwa [List.append_nil] at hboth

theorem Does.within {r : Except Stop α} (h : Does n c r calls edit) (title : String) :
    Does n (within title c) r calls edit := by
  intro d hd
  let opened := { d with
    lead := Outline.inner d.lead
    printed := d.printed ++ [Outline.opening d.lead title] }
  obtain ⟨e, he, hbecomes⟩ := h opened hd
  refine ⟨{ e with lead := d.lead, printed := e.printed ++ [Outline.closing d.lead title] }, ?_,
    rfl, hbecomes.calls, hbecomes.files⟩
  calc (Console.within title c).start d
    _ = ((c.start opened).1, { (c.start opened).2 with
        lead := d.lead
        printed := (c.start opened).2.printed ++ [Outline.closing d.lead title] }) := rfl
    _ = _ := by rw [he]

theorem merely_forM {hear : String → Console Unit} (h : ∀ s, Merely (hear s) (.ok ()))
    (complaints : List String) : Merely (complaints.forM hear) (.ok ()) := by
  induction complaints with
  | nil => exact merely_pure ()
  | cons s complaints ih => exact Merely.bind (h s) ih

/-- How a call ends if the program replies so. -/
def outcome (command : List String) : Reply → Except Stop (String × Int)
  | .done out _ time => .ok (out, time)
  | .failed => .error (.fault ⟨.commandFailed,
      s!"Command '{(Datum.list (command.map Datum.str)).text}' returned non-zero exit status 1."⟩)
  | .timedOut => .error (.fault ⟨.timedOut,
      s!"Command '{(Datum.list (command.map Datum.str)).text}' timed out"⟩)

theorem merely_receive (command : List String) {hear : String → Console Unit}
    (hhear : ∀ s, Merely (hear s) (.ok ())) (reply : Reply) :
    Merely (receive command hear reply) (outcome command reply) := by
  cases reply with
  | done out complaints time =>
    exact Merely.bind (merely_forM hhear complaints) (merely_pure (out, time))
  | failed => exact merely_fail _
  | timedOut => exact merely_fail _

theorem does_call (programs : Programs) (n : Nat) (command : List String) (seconds : Option Nat)
    {hear : String → Console Unit} (hhear : ∀ s, Merely (hear s) (.ok ())) :
    Does n (call programs command seconds hear) (outcome command (programs n command))
      [(command, seconds)] id := by
  rintro d rfl
  have hnote : Does d.calls.length
      (modify fun d => { d with calls := d.calls ++ [(command, seconds)] } : Console Unit) (.ok ())
      [(command, seconds)] id := fun d _ => ⟨_, rfl, rfl, rfl, rfl⟩
  have hreceive := merely_receive command hhear (programs d.calls.length command)
  exact hnote.bind_merely (f := fun _ => _) hreceive d rfl

theorem Does.attempt_ok (h : Does n c (.ok a) calls edit) :
    Does n (attempt c) (.ok (.ok a)) calls edit := by
  intro d hd
  obtain ⟨e, he, hbecomes⟩ := h d hd
  refine ⟨e, ?_, hbecomes⟩
  rw [attempt, start_bind_ok (rfl : (get : Console Desk).start d = (.ok d, d)), he]
  rfl

theorem Does.attempt_fault {f : Fault} (h : Does n c (.error (.fault f)) calls edit) :
    Does n (attempt c) (.ok (.error f)) calls edit := by
  intro d hd
  obtain ⟨e, he, hbecomes⟩ := h d hd
  refine ⟨e, ?_, hbecomes⟩
  rw [attempt, start_bind_ok (rfl : (get : Console Desk).start d = (.ok d, d)), he]
  rfl

namespace Files

def without (path : String) (files : Files) : Files := files.filter fun f => f.1 != path

def put (path text : String) (files : Files) : Files := files.without path ++ [(path, text)]

variable {path other text : String} {files : Files}

@[simp] theorem lookup_without : (files.without path).lookup path = none := by
  rw [List.lookup_eq_none_iff]
  intro f hf
  have hne : f.1 ≠ path := bne_iff_ne.1 (List.mem_filter.1 hf).2
  exact bne_iff_ne.2 (Ne.symm hne)

theorem lookup_without_of_ne (h : other ≠ path) :
    (files.without path).lookup other = files.lookup other := by
  induction files with
  | nil => rfl
  | cons f files ih =>
    rw [without, List.filter_cons, List.lookup_cons]
    split
    · rw [List.lookup_cons]
      split
      · rfl
      · exact ih
    · rename_i hpath
      have hpath : f.1 = path := by simpa using hpath
      rw [hpath, beq_eq_false_iff_ne.2 h]
      exact ih

@[simp] theorem lookup_put : (files.put path text).lookup path = some text := by
  rw [put, List.lookup_append, lookup_without]
  simp

theorem lookup_put_of_ne (h : other ≠ path) :
    (files.put path text).lookup other = files.lookup other := by
  rw [put, List.lookup_append, lookup_without_of_ne h, List.lookup_cons, beq_eq_false_iff_ne.2 h]
  simp

end Files

theorem does_writeFile (n : Nat) (path text : String) :
    Does n (writeFile path text) (.ok ()) [] (Files.put path text) :=
  fun _ _ => ⟨_, rfl, rfl, (List.append_nil _).symm, rfl⟩

theorem start_file? (path : String) (d : Desk) :
    (file? path).start d = (.ok (d.files.lookup path), d) := rfl

end Console

end Assay
