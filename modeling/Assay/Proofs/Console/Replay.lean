import Assay.Console.Replay
import Assay.Proofs.CaseFile
import Assay.Proofs.Console.Effects
import Assay.Proofs.Lines

/-!
# Stepwise replays

A stepwise replay takes up at the case in the file, or at the first one (`resumePoint`), and goes
through the cases that follow in order, up to the first one with a wrong answer, which it leaves in
the file. A case of the suite is told apart from the others by its line, so the place to take up at
is the first occurrence of the case in the file.
-/

namespace Assay

namespace Reply

/-- The answer in a reply. A program that fails or takes too long has an answer too. -/
def answer : Reply → Except Fault String
  | done out _ _ => Console.answerIn out
  | failed => .ok "failure"
  | timedOut => .ok "*"

/-- If the program prints, its last line is neither blank nor starts with a colon. -/
def IsProper : Reply → Prop
  | done out _ _ => ∃ line, (Text.lines out).getLast? = some line ∧
      ∃ c cs, (Text.trim line).toList = c :: cs ∧ c ≠ ':'
  | _ => True

theorem IsProper.exists_answer {r : Reply} (h : r.IsProper) : ∃ a, r.answer = .ok a := by
  cases r with
  | done out complaints time =>
    obtain ⟨line, hline, c, cs, hcs, hc⟩ := h
    refine ⟨String.ofList (c :: cs.takeWhile (· ≠ ':')), ?_⟩
    have htake : (c :: cs).takeWhile (· ≠ ':') = c :: cs.takeWhile (· ≠ ':') := by simp [hc]
    simp only [answer, Console.answerIn, hline, hcs, htake]
  | failed => exact ⟨_, rfl⟩
  | timedOut => exact ⟨_, rfl⟩

end Reply

namespace Bench

/-- Whether the interpreter of scripts is put in front of the program. -/
def isScripted (b : Bench) : Bool := b.script.getD (b.program.head?.any Command.isScript)

def resolved (b : Bench) : List String :=
  if b.isScripted then
    (Command.relative? b.folder b.interpreter).getD b.interpreter :: b.program
  else b.program

def callFor (b : Bench) (c : Case) : Except Fault Console.Call := do
  return (b.resolved ++ [c.method.encode, ← c.input.encode], some seconds)

/-- The program's answer to a case after `n` calls. -/
def answerTo (b : Bench) (n : Nat) (c : Case) : Except Fault String := do
  (b.programs n (← b.callFor c).1).answer

def IsRight (b : Bench) (n : Nat) (c : Case) : Prop := b.answerTo n c = .ok c.result

/-- The program replies to the case with an answer, whenever it is called. -/
def Answers (b : Bench) (c : Case) : Prop :=
  ∀ n call, b.callFor c = .ok call → (b.programs n call.1).IsProper

end Bench

namespace Console

theorem merely_scripted {program : List String} (script : Option Bool) (h : program ≠ []) :
    Merely (Command.scripted program script)
      (.ok (script.getD (program.head?.any Command.isScript))) := by
  obtain ⟨name, args, rfl⟩ := List.exists_cons_of_ne_nil h
  cases script with
  | some b => exact merely_pure b
  | none =>
    simp only [Command.scripted, Option.getD_none, List.head?_cons, Option.any_some]
    split
    · rename_i hscript
      rw [hscript]
      exact Merely.bind (merely_say _ _) (merely_pure true)
    · rename_i hscript
      rw [eq_false_of_ne_true hscript]
      exact merely_pure false

theorem merely_command {b : Bench} (h : b.program ≠ []) : Merely b.command (.ok b.resolved) := by
  refine Merely.bind (a := b.isScripted) (merely_scripted b.script h) ?_
  rw [Bench.resolved]
  cases b.isScripted with
  | false => exact merely_pure _
  | true =>
    simp only [↓reduceIte]
    cases Command.relative? b.folder b.interpreter with
    | some path => exact merely_pure _
    | none => exact Merely.bind (merely_say _ _) (merely_pure _)

theorem does_callReported (programs : Programs) (n : Nat) (command : List String) :
    Does n (callReported programs command) ((outcome command (programs n command)).map Prod.fst)
      [(command, some Bench.seconds)] id := by
  have hcall := (does_call programs n command (some Bench.seconds) merely_output).within "Stderr"
  refine Does.within ?_ _
  cases hreply : outcome command (programs n command) with
  | error s =>
    rw [hreply] at hcall
    exact hcall.bind_error
  | ok r =>
    rw [hreply] at hcall
    have hshown : Merely (within "Stdout" (output r.1)) (.ok ()) :=
      fun n => (merely_output r.1 n).within "Stdout"
    exact hcall.bind_merely (Merely.bind hshown (merely_pure r.1))

variable {b : Bench} {n : Nat} {c : Case} {call : Call} {a : String}

theorem does_answer (hcall : b.callFor c = .ok call)
    (hanswer : (b.programs n call.1).answer = .ok a) :
    Does n (answer b b.resolved c) (.ok a) [call] id := by
  obtain ⟨text, htext, hcall⟩ := bind_eq_ok.1 hcall
  obtain rfl := Except.ok.inj hcall
  have hreport := does_callReported b.programs n (b.resolved ++ [c.method.encode, text])
  cases hreply : b.programs n (b.resolved ++ [c.method.encode, text]) with
  | done out complaints time =>
    rw [hreply] at hanswer hreport
    refine ((merely_ofExcept htext).bind_does ?_).attempt_ok.bind_merely (merely_pure a)
    exact hreport.bind_merely (merely_ofExcept hanswer)
  | failed =>
    rw [hreply] at hanswer hreport
    obtain rfl := Except.ok.inj hanswer
    refine ((merely_ofExcept htext).bind_does hreport.bind_error).attempt_fault.bind_merely ?_
    exact Merely.bind (merely_say _ _) (merely_pure _)
  | timedOut =>
    rw [hreply] at hanswer hreport
    obtain rfl := Except.ok.inj hanswer
    exact ((merely_ofExcept htext).bind_does hreport.bind_error).attempt_fault.bind_merely
      (merely_pure _)

/-- A program that answers has a call for the case, and an answer to it. -/
theorem exists_call (hfiled : c.IsFiled) (hanswers : b.Answers c) (n : Nat) :
    ∃ call text a, b.callFor c = .ok call ∧ c.text = .ok text ∧
      (b.programs n call.1).answer = .ok a ∧ b.answerTo n c = .ok a := by
  obtain ⟨line, hline, -⟩ := hfiled.line
  obtain ⟨input, hinput, -⟩ := bind_eq_ok.1 hline
  have hcall : b.callFor c =
      .ok (b.resolved ++ [c.method.encode, input], some Bench.seconds) := by
    rw [Bench.callFor, hinput]
    rfl
  obtain ⟨text, htext⟩ : ∃ text, c.text = .ok text := by
    rw [Case.text, hinput]
    exact ⟨_, rfl⟩
  obtain ⟨a, ha⟩ := (hanswers n _ hcall).exists_answer
  refine ⟨_, text, a, hcall, htext, ha, ?_⟩
  rw [Bench.answerTo, hcall]
  exact ha

theorem does_replayCase (hfiled : c.IsFiled) (hanswers : b.Answers c) (n : Nat) (t : Tally) :
    ∃ call, b.callFor c = .ok call ∧
      (b.IsRight n c → Does n (replayCase b b.resolved true c t)
        (.ok ⟨t.right + 1, t.count + 1⟩) [call] id) ∧
      (¬ b.IsRight n c → ∃ line, c.encode = .ok line ∧
        Does n (replayCase b b.resolved true c t) (.error (.exit (-1))) [call]
          (Files.put stepwiseFile line)) := by
  obtain ⟨call, text, a, hcall, htext, ha, hanswer⟩ := exists_call hfiled hanswers n
  refine ⟨call, hcall, fun hright => ?_, fun hwrong => ?_⟩
  · have hright : c.result = a := Except.ok.inj (hright.symm.trans hanswer)
    refine (merely_ofExcept htext).bind_does (Does.within ?_ _)
    refine (does_answer hcall ha).bind_merely (Merely.bind (merely_output _) ?_)
    rw [if_pos hright]
    exact merely_pure _
  · have hwrong : c.result ≠ a := fun h => hwrong (hanswer.trans (congrArg _ h.symm))
    obtain ⟨line, hline, -⟩ := hfiled.line
    refine ⟨line, hline, (merely_ofExcept htext).bind_does (Does.within ?_ _)⟩
    refine (does_answer hcall ha).bind_edit fun n => (merely_output _).bind_does ?_
    rw [if_neg hwrong]
    refine (merely_ofExcept hline).bind_does ?_
    exact (does_writeFile n stepwiseFile line).bind_merely (merely_exit (-1))

/-- Cases before the one to take up at are passed over. -/
theorem replayFrom_resume (b : Bench) (program : List String) (stepwise : Bool)
    (filter : Option Pattern) (r : Case) (cs : List Case) (t : Tally) :
    replayFrom b program stepwise filter (some r) cs t =
      replayFrom b program stepwise filter none (cs.dropWhile (r != ·)) t := by
  induction cs with
  | nil => rfl
  | cons c cs ih =>
    cases hskip : r != c with
    | true =>
      rw [List.dropWhile_cons_of_pos hskip, ← ih, replayFrom]
      simp [hskip]
    | false =>
      rw [List.dropWhile_cons_of_neg (by simp [hskip]), replayFrom, replayFrom]
      simp [hskip]

variable {cs front back : List Case} {x : Case}

theorem does_replayFrom_cons {program : List String} {t : Tally} {r : Except Stop Tally}
    {calls : List Call} {edit : Files → Files} (hfiled : c.IsFiled) (hanswers : b.Answers c)
    (h : Does n (replayCase b program true c t >>= replayFrom b program true none none cs)
      r calls edit) :
    Does n (replayFrom b program true none none (c :: cs) t) r calls edit := by
  obtain ⟨-, text, -, -, htext, -⟩ := exists_call hfiled hanswers n
  rw [replayFrom]
  exact (merely_ofExcept htext).bind_does h

/-- The cases are right when they are replayed in a row after `n` calls. -/
def AllRight (b : Bench) : Nat → List Case → Prop
  | _, [] => True
  | n, c :: cs => b.IsRight n c ∧ AllRight b (n + 1) cs

theorem allRight_iff : AllRight b n cs ↔ ∀ i c, cs[i]? = some c → b.IsRight (n + i) c := by
  induction cs generalizing n with
  | nil => simp [AllRight]
  | cons c cs ih =>
    rw [AllRight, ih]
    refine ⟨fun ⟨hc, hcs⟩ i x hx => ?_, fun h => ⟨h 0 c rfl, fun i x hx => ?_⟩⟩
    · cases i with
      | zero => exact Option.some.inj hx ▸ hc
      | succ i =>
        rw [Nat.add_comm i, ← Nat.add_assoc]
        exact hcs i x hx
    · rw [Nat.add_right_comm]
      exact h (i + 1) x hx

/-- All the cases are right in a row, or there is a first one that is wrong. -/
theorem allRight_or (b : Bench) (n : Nat) (cs : List Case) :
    AllRight b n cs ∨ ∃ front x back, cs = front ++ x :: back ∧ AllRight b n front ∧
      ¬ b.IsRight (n + front.length) x := by
  induction cs generalizing n with
  | nil => exact .inl trivial
  | cons c cs ih =>
    by_cases hc : b.IsRight n c
    · rcases ih (n + 1) with hall | ⟨front, x, back, rfl, hfront, hx⟩
      · exact .inl ⟨hc, hall⟩
      · rw [Nat.add_right_comm] at hx
        exact .inr ⟨c :: front, x, back, rfl, ⟨hc, hfront⟩, hx⟩
    · exact .inr ⟨[], c, cs, rfl, trivial, hc⟩

theorem does_replayFrom (hfiled : ∀ c ∈ cs, c.IsFiled) (hanswers : ∀ c ∈ cs, b.Answers c)
    (hright : AllRight b n cs) (t : Tally) :
    ∃ calls, cs.mapM b.callFor = .ok calls ∧
      Does n (replayFrom b b.resolved true none none cs t)
        (.ok ⟨t.right + cs.length, t.count + cs.length⟩) calls id := by
  induction cs generalizing n t with
  | nil => exact ⟨[], rfl, merely_pure t n⟩
  | cons c cs ih =>
    obtain ⟨hc, hfiled⟩ := List.forall_mem_cons.1 hfiled
    obtain ⟨ha, hanswers⟩ := List.forall_mem_cons.1 hanswers
    obtain ⟨hr, hright⟩ := hright
    obtain ⟨call, hcall, hfirst, -⟩ := does_replayCase hc ha n t
    obtain ⟨calls, hcalls, hrest⟩ := ih hfiled hanswers hright ⟨t.right + 1, t.count + 1⟩
    refine ⟨call :: calls, ?_, ?_⟩
    · rw [List.mapM_cons, hcall, ok_bind, hcalls]
      rfl
    · have hboth := does_replayFrom_cons hc ha ((hfirst hr).bind hrest)
      rwa [Nat.add_right_comm, Nat.add_right_comm t.count] at hboth

theorem does_replayFrom_wrong (hfiled : ∀ c ∈ front ++ [x], c.IsFiled)
    (hanswers : ∀ c ∈ front ++ [x], b.Answers c) (hright : AllRight b n front)
    (hwrong : ¬ b.IsRight (n + front.length) x) (t : Tally) :
    ∃ calls line, (front ++ [x]).mapM b.callFor = .ok calls ∧ x.encode = .ok line ∧
      Does n (replayFrom b b.resolved true none none (front ++ x :: back) t) (.error (.exit (-1)))
        calls (Files.put stepwiseFile line) := by
  induction front generalizing n t with
  | nil =>
    have hx := hfiled x List.mem_cons_self
    have hxa := hanswers x List.mem_cons_self
    obtain ⟨call, hcall, -, hstop⟩ := does_replayCase hx hxa n t
    obtain ⟨line, hline, hdoes⟩ := hstop hwrong
    refine ⟨[call], line, ?_, hline, does_replayFrom_cons hx hxa hdoes.bind_error⟩
    rw [List.nil_append, List.mapM_cons, hcall]
    rfl
  | cons c front ih =>
    obtain ⟨hc, hfiled⟩ := List.forall_mem_cons.1 hfiled
    obtain ⟨ha, hanswers⟩ := List.forall_mem_cons.1 hanswers
    obtain ⟨hr, hright⟩ := hright
    rw [List.length_cons, Nat.add_comm front.length, ← Nat.add_assoc] at hwrong
    obtain ⟨call, hcall, hfirst, -⟩ := does_replayCase hc ha n t
    obtain ⟨calls, line, hcalls, hline, hrest⟩ :=
      ih hfiled hanswers hright hwrong ⟨t.right + 1, t.count + 1⟩
    refine ⟨call :: calls, line, ?_, hline, does_replayFrom_cons hc ha ((hfirst hr).bind hrest)⟩
    rw [List.cons_append, List.mapM_cons, hcall, ok_bind, hcalls]
    rfl

theorem start_resumeCase_none {d : Desk} (h : d.files.lookup stepwiseFile = none) :
    resumeCase.start d = (.ok none, d) := by
  rw [resumeCase, start_bind_ok (start_file? stepwiseFile d), h]
  rfl

theorem start_resumeCase_some {d : Desk} {line : String}
    (h : d.files.lookup stepwiseFile = some line)
    (hdecode : Case.decode (Text.fromFile line) = .ok c) :
    resumeCase.start d = (.ok (some c), d) := by
  rw [resumeCase, start_bind_ok (start_file? stepwiseFile d), h]
  simp only [hdecode]
  rfl

/-- The place of the case that is taken up at: the first with the line in the file, or the first of
all. -/
def resumePoint (cases : List Case) (files : Files) : Nat :=
  match files.lookup stepwiseFile with
  | none => 0
  | some line => cases.findIdx fun c => c.encode.toOption == some line

/-- There is no file to take up at, or it holds the line of a case of the suite. -/
def IsResumable (cases : List Case) (files : Files) : Prop :=
  files.lookup stepwiseFile = none ∨
    ∃ c ∈ cases, ∃ line, c.encode = .ok line ∧ files.lookup stepwiseFile = some line

section Resume

variable {cases : List Case} {files : Files} {line : String}

theorem findIdx_congr {α : Type} {p q : α → Bool} {xs : List α} (h : ∀ x ∈ xs, p x = q x) :
    xs.findIdx p = xs.findIdx q := by
  induction xs with
  | nil => rfl
  | cons x xs ih =>
    obtain ⟨hx, hxs⟩ := List.forall_mem_cons.1 h
    rw [List.findIdx_cons, List.findIdx_cons, hx, ih hxs]

theorem resumePoint_of_some (h : files.lookup stepwiseFile = some line) :
    resumePoint cases files = cases.findIdx fun c => c.encode.toOption == some line := by
  rw [resumePoint, h]

theorem resumePoint_of_none (h : files.lookup stepwiseFile = none) :
    resumePoint cases files = 0 := by
  rw [resumePoint, h]

/-- A case of the suite is told apart from the others by its line. -/
theorem isWritten_iff (hfiled : ∀ c ∈ cases, c.IsFiled) (hc : c ∈ cases)
    (hline : c.encode = .ok line) (hx : x ∈ cases) :
    (x.encode.toOption == some line) = true ↔ x = c := by
  rw [beq_iff_eq]
  refine ⟨fun hsame => ?_, fun h => by rw [h, hline]; rfl⟩
  obtain ⟨line', hline', hdecode'⟩ := (hfiled x hx).line
  obtain ⟨line'', hline'', hdecode''⟩ := (hfiled c hc).line
  rw [hline'] at hsame
  obtain rfl : line' = line := Option.some.inj hsame
  obtain rfl : line'' = line' := Except.ok.inj (hline''.symm.trans hline)
  exact Except.ok.inj (hdecode'.symm.trans hdecode'')

theorem resumePoint_eq_idxOf (hfiled : ∀ c ∈ cases, c.IsFiled) (hc : c ∈ cases)
    (hline : c.encode = .ok line) (h : files.lookup stepwiseFile = some line) :
    resumePoint cases files = cases.idxOf c := by
  rw [resumePoint_of_some h]
  refine findIdx_congr fun x hx => Bool.eq_iff_iff.2 ?_
  rw [isWritten_iff hfiled hc hline hx, (hfiled x hx).beq_iff (hfiled c hc)]

theorem dropWhile_eq_drop_resumePoint (hfiled : ∀ c ∈ cases, c.IsFiled) (hc : c ∈ cases)
    (hline : c.encode = .ok line) (h : files.lookup stepwiseFile = some line) :
    cases.dropWhile (c != ·) = cases.drop (resumePoint cases files) := by
  rw [resumePoint_of_some h, List.dropWhile_eq_drop_findIdx_not]
  congr 1
  refine findIdx_congr fun x hx => Bool.eq_iff_iff.2 ?_
  rw [bne, Bool.not_not, isWritten_iff hfiled hc hline hx,
    (hfiled c hc).beq_iff (hfiled x hx), eq_comm]

/-- What is left of a replay once the place to take up at is found. -/
theorem start_replay (hfiled : ∀ c ∈ cases, c.IsFiled) (hcases : b.cases = .ok cases)
    (hprogram : b.program ≠ []) (hfiles : IsResumable cases files) {d : Desk}
    (hd : d.files = files) : ∃ e, d.Becomes [] id e ∧
      (replay b true none).start d = (do
        let t ← replayFrom b b.resolved true none none (cases.drop (resumePoint cases files)) ⟨0, 0⟩
        removeFile stepwiseFile
        output s!"Total {t.right}/{t.count}" : Console Unit).start e := by
  obtain ⟨e, hcommand, hbecomes⟩ := merely_command hprogram _ d rfl
  refine ⟨e, hbecomes, ?_⟩
  have hfilter : (filter? none).start d = (.ok none, d) := rfl
  have hsuite : (ofExcept b.cases).start e = (.ok cases, e) := by
    rw [hcases]
    rfl
  have hfound : e.files = files := hbecomes.files.trans hd
  rw [replay, start_bind_ok hfilter, start_bind_ok hcommand]
  rcases hfiles with hnone | ⟨c, hc, line, hline, hsome⟩
  · have hresume := start_resumeCase_none (d := e) (by rwa [hfound])
    rw [resumePoint_of_none hnone, List.drop_zero, if_pos rfl, start_bind_ok hresume,
      start_bind_ok hsuite]
  · obtain ⟨line', hline', hdecode⟩ := (hfiled c hc).line
    obtain rfl : line' = line := Except.ok.inj (hline'.symm.trans hline)
    have hresume := start_resumeCase_some (d := e) (by rwa [hfound]) hdecode
    rw [if_pos rfl, start_bind_ok hresume, start_bind_ok hsuite, replayFrom_resume,
      dropWhile_eq_drop_resumePoint hfiled hc hline hsome]

theorem messageLines_total (n : Nat) :
    Outline.messageLines "" s!"Total {n}/{n}" = [s!"Total {n}/{n}"] := by
  have hline : Text.IsLine (s!"Total {n}/{n}") :=
    (((show Text.IsLine "Total " by decide).append (Text.isLine_toString n)).append
      (show Text.IsLine "/" by decide)).append
      (Text.isLine_toString n)
  have hne : s!"Total {n}/{n}" ≠ "" := by
    intro hempty
    have hlength := congrArg String.length hempty
    simp [toString] at hlength
  rw [Outline.messageLines, Text.lines_of_isLine hline hne, List.map_singleton, String.empty_append]

end Resume

end Console

end Assay
