import Assay.Fuzz.Run
import Assay.Proofs.Fallible

/-!
# What a round of fuzzing can do

A session has a result and leaves a fuzzer behind, also where it fails. Drawing, running and
searching are quiet: they leave the corpus and the crashes alone. So a round finds nothing, or
replaces an entry by a smaller one, or makes an entry for a new depth and perhaps reports a crash
there (`Round`).
-/

namespace Assay.Fuzz

namespace Session

variable {α β : Type}

def result (x : Session α) (f : Fuzzer) : Except Fault α := (x.run.run f).1

/-- The fuzzer that a session leaves behind. -/
def after (x : Session α) (f : Fuzzer) : Fuzzer := (x.run.run f).2

variable {x : Session α} {k : α → Session β} {f : Fuzzer} {a : α} {e : Fault}

theorem run_bind (x : Session α) (k : α → Session β) (f : Fuzzer) :
    (x >>= k).run.run f = match x.run.run f with
      | (.ok a, g) => (k a).run.run g
      | (.error e, g) => (.error e, g) := by
  rw [ExceptT.run_bind, StateT.run_bind]
  rcases x.run.run f with ⟨_ | _, _⟩ <;> rfl

theorem result_bind_ok (h : x.result f = .ok a) :
    (x >>= k).result f = (k a).result (x.after f) := by
  unfold result after at *
  rw [run_bind]
  split <;> simp_all

theorem after_bind_ok (h : x.result f = .ok a) : (x >>= k).after f = (k a).after (x.after f) := by
  unfold result after at *
  rw [run_bind]
  split <;> simp_all

theorem result_bind_error (h : x.result f = .error e) : (x >>= k).result f = .error e := by
  unfold result at *
  rw [run_bind]
  split <;> simp_all

theorem after_bind_error (h : x.result f = .error e) : (x >>= k).after f = x.after f := by
  unfold result after at *
  rw [run_bind]
  split <;> simp_all

/-- A chain has a result where both of its parts have one. -/
theorem result_bind_eq_ok {b : β} :
    (x >>= k).result f = .ok b ↔ ∃ a, x.result f = .ok a ∧ (k a).result (x.after f) = .ok b := by
  cases h : x.result f with
  | error e => simp [result_bind_error h]
  | ok a => simp [result_bind_ok h]

@[simp] theorem result_pure : (pure a : Session α).result f = .ok a := rfl

@[simp] theorem after_pure : (pure a : Session α).after f = f := rfl

@[simp] theorem result_liftM (r : Except Fault α) : (liftM r : Session α).result f = r := by
  cases r <;> rfl

@[simp] theorem after_liftM (r : Except Fault α) : (liftM r : Session α).after f = f := by
  cases r <;> rfl

theorem draw_bind (d : Draw α) (k : α → Draw β) :
    draw (d >>= k) = draw d >>= fun a => draw (k a) := by
  refine ExceptT.ext (StateT.ext fun f => ?_)
  rw [run_bind]
  have hrun : (draw (d >>= k)).run.run f =
      (((d >>= k).run.run f.source).1, { f with source := ((d >>= k).run.run f.source).2 }) := rfl
  have hfirst : (draw d).run.run f =
      ((d.run.run f.source).1, { f with source := (d.run.run f.source).2 }) := rfl
  rw [hrun, hfirst, ExceptT.run_bind, StateT.run_bind]
  rcases d.run.run f.source with ⟨_ | _, _⟩ <;> rfl

@[simp] theorem result_get : (get : Session Fuzzer).result f = .ok f := rfl

@[simp] theorem after_get : (get : Session Fuzzer).after f = f := rfl

@[simp] theorem result_modify (u : Fuzzer → Fuzzer) :
    (modify u : Session Unit).result f = .ok () := rfl

@[simp] theorem after_modify (u : Fuzzer → Fuzzer) : (modify u : Session Unit).after f = u f := rfl

end Session

/-- The second fuzzer has what the first one has found. -/
structure Fuzzer.Keeps (f g : Fuzzer) : Prop where
  corpus : g.corpus = f.corpus
  crashes : g.crashes = f.crashes

theorem Fuzzer.Keeps.refl (f : Fuzzer) : f.Keeps f := ⟨rfl, rfl⟩

theorem Fuzzer.Keeps.trans {f g h : Fuzzer} (hg : f.Keeps g) (hh : g.Keeps h) : f.Keeps h :=
  ⟨hh.corpus.trans hg.corpus, hh.crashes.trans hg.crashes⟩

namespace Session

variable {α β : Type} {x : Session α} {k : α → Session β} {f : Fuzzer} {a : α} {e : Fault}

/-- The session finds nothing, whether it fails or not. -/
def IsQuiet (x : Session α) : Prop := ∀ f : Fuzzer, f.Keeps (x.after f)

theorem isQuiet_pure (a : α) : (pure a : Session α).IsQuiet := Fuzzer.Keeps.refl

theorem isQuiet_liftM (r : Except Fault α) : (liftM r : Session α).IsQuiet := by
  intro f
  rw [after_liftM]
  exact .refl f

theorem isQuiet_get : (get : Session Fuzzer).IsQuiet := Fuzzer.Keeps.refl

theorem isQuiet_throw (e : Fault) : (throw e : Session α).IsQuiet := Fuzzer.Keeps.refl

theorem isQuiet_draw (d : Draw α) : (Session.draw d).IsQuiet := fun _ => ⟨rfl, rfl⟩

theorem isQuiet_print (line : String) : (Session.print line).IsQuiet := fun _ => ⟨rfl, rfl⟩

theorem IsQuiet.bind (hx : x.IsQuiet) (hk : ∀ a, (k a).IsQuiet) : (x >>= k).IsQuiet := by
  intro f
  cases h : x.result f with
  | error e =>
    rw [after_bind_error h]
    exact hx f
  | ok a =>
    rw [after_bind_ok h]
    exact (hx f).trans (hk a _)

end Session

open Session (IsQuiet isQuiet_pure isQuiet_liftM isQuiet_get isQuiet_throw isQuiet_draw
  isQuiet_print)

theorem isQuiet_mutant : mutant.IsQuiet := by
  refine isQuiet_get.bind fun f => ?_
  split
  · exact isQuiet_throw _
  · exact (isQuiet_draw _).bind fun seed => isQuiet_draw _

section Runs

variable (run : Runner)

/-- How the run of an input ends. -/
def ending (input : Argument) (off : Bool) : Except Fault Ending := do
  run (← inputText input.toDatum) off

/-- An input is noted down with its text, and run. -/
theorem execute_eq (input : Argument) (off : Bool) : execute run input off = (do
    modify fun f => { f with tried := (input, inputText input.toDatum) :: f.tried }
    liftM (ending run input off)) := by
  unfold execute ending
  cases inputText input.toDatum <;> rfl

@[simp] theorem result_execute (input : Argument) (off : Bool) (f : Fuzzer) :
    (execute run input off).result f = ending run input off := by
  rw [execute_eq, Session.result_bind_ok (Session.result_modify _), Session.result_liftM]

@[simp] theorem after_execute (input : Argument) (off : Bool) (f : Fuzzer) :
    (execute run input off).after f =
      { f with tried := (input, inputText input.toDatum) :: f.tried } := by
  rw [execute_eq, Session.after_bind_ok (Session.result_modify _), Session.after_liftM,
    Session.after_modify]

theorem isQuiet_execute (input : Argument) (off : Bool) : (execute run input off).IsQuiet := by
  intro f
  rw [after_execute]
  exact ⟨rfl, rfl⟩

theorem isQuiet_searchChange (input : Argument) (i : Nat) (minDepth : Int) (n : Nat) :
    (searchChange run input i minDepth n).IsQuiet := by
  induction n with
  | zero => exact isQuiet_pure none
  | succ n ih =>
    refine isQuiet_mutant.bind fun m => (isQuiet_liftM _).bind fun mutated =>
      (isQuiet_liftM _).bind fun old => ?_
    split
    · exact ih
    · refine (isQuiet_liftM _).bind fun changed =>
        (isQuiet_execute run changed false).bind fun out => ?_
      split
      · exact isQuiet_pure _
      · exact ih

theorem isQuiet_suspectsFrom (input : Argument) (minDepth : Int) (i n : Nat) :
    (suspectsFrom run input minDepth i n).IsQuiet := by
  induction n generalizing i with
  | zero => exact isQuiet_pure []
  | succ n ih =>
    exact isQuiet_get.bind fun f =>
      (isQuiet_searchChange run input i minDepth f.rounds).bind fun found =>
      (isQuiet_liftM _).bind fun value => (ih (i + 1)).bind fun rest => isQuiet_pure _

theorem isQuiet_suspects (input : Argument) (minDepth : Int) :
    (suspects run input minDepth).IsQuiet :=
  (isQuiet_liftM _).bind fun n => isQuiet_suspectsFrom run input minDepth 0 n

theorem isQuiet_unprotected (input : Argument) (depth : Int) :
    (unprotected run input depth).IsQuiet :=
  (isQuiet_execute run input false).bind fun _ => isQuiet_pure _

end Runs

section Reports

/-- The arguments of an input; a text has its characters. -/
def arguments : Argument → List Argument
  | .list _ items => items
  | .plain (.str s) => s.toList.map fun c => .plain (.str (String.singleton c))
  | _ => []

/-- The report names the argument itself, or of an array or object what follows its type. -/
inductive Describes : Argument → Suspect → Prop
  | plain (d : Datum) (faulty : Bool) : Describes (.plain d) ⟨d, faulty, false⟩
  | list (mark : Nat) (type first : Argument) (rest : List Argument) (faulty : Bool) :
      Describes (.list mark (type :: first :: rest)) ⟨first.toDatum, faulty, true⟩

variable {run : Runner} {input a : Argument} {i n : Nat} {minDepth : Int} {f : Fuzzer}
  {report : List Suspect}

theorem getElem?_arguments (h : memberAt input i = .ok a) : (arguments input)[i]? = some a := by
  unfold memberAt at h
  split at h
  · split at h
    next hi =>
      obtain rfl := Except.ok.inj h
      exact hi
    next => cases h
  · split at h
    next hi =>
      obtain rfl := Except.ok.inj h
      simp [arguments, hi]
    next => cases h
  · cases h
  · cases h

theorem describes_of_reported {value : Datum} {isObject : Bool}
    (h : reported a = .ok (value, isObject)) (faulty : Bool) :
    Describes a ⟨value, faulty, isObject⟩ := by
  unfold reported at h
  split at h
  next mark items =>
    split at h
    next hi =>
      obtain ⟨rfl, rfl⟩ := Prod.mk.inj (Except.ok.inj h)
      match items, hi with
      | type :: first :: rest, hi =>
        obtain rfl := Option.some.inj hi
        exact .list mark type _ rest faulty
    next => cases h
  next hlist =>
    obtain ⟨rfl, rfl⟩ := Prod.mk.inj (Except.ok.inj h)
    cases a with
    | plain d => exact .plain d faulty
    | list mark items => exact absurd rfl (hlist mark items)

theorem describes_suspectsFrom (h : (suspectsFrom run input minDepth i n).result f = .ok report) :
    List.Forall₂ Describes (((arguments input).drop i).take n) report := by
  induction n generalizing i f report with
  | zero =>
    obtain rfl : [] = report := Except.ok.inj h
    simp
  | succ n ih =>
    obtain ⟨f', hf', h⟩ := Session.result_bind_eq_ok.1 h
    obtain ⟨found, -, h⟩ := Session.result_bind_eq_ok.1 h
    obtain ⟨⟨value, isObject⟩, hvalue, h⟩ := Session.result_bind_eq_ok.1 h
    obtain ⟨rest, hrest, h⟩ := Session.result_bind_eq_ok.1 h
    obtain rfl := Except.ok.inj h
    rw [Session.result_liftM] at hvalue
    obtain ⟨a, ha, hreported⟩ := bind_eq_ok.1 hvalue
    obtain ⟨hi, hget⟩ := List.getElem?_eq_some_iff.1 (getElem?_arguments ha)
    rw [List.drop_eq_getElem_cons hi, List.take_succ_cons, hget]
    exact .cons (describes_of_reported hreported _) (ih hrest)

theorem length_toData (items : List Argument) : (Argument.toData items).length = items.length := by
  induction items with
  | nil => rfl
  | cons a items ih => simp [Argument.toData, ih]

theorem length_arguments (h : memberCount input = .ok n) :
    arguments input = [] ∨ (arguments input).length = n := by
  cases input with
  | list mark items =>
    obtain rfl := Except.ok.inj h
    exact .inr (length_toData items).symm
  | plain d =>
    cases d with
    | str s =>
      obtain rfl := Except.ok.inj h
      exact .inr (by simp [arguments, String.length_toList])
    | _ => exact .inl rfl

/-- A report on an input has a suspect for each argument, in their order. -/
theorem describes_suspects (h : (suspects run input minDepth).result f = .ok report) :
    List.Forall₂ Describes (arguments input) report := by
  obtain ⟨n, hn, h⟩ := Session.result_bind_eq_ok.1 h
  rw [Session.result_liftM] at hn
  have hdescribes := describes_suspectsFrom h
  rw [List.drop_zero] at hdescribes
  rcases length_arguments hn with hnil | hall
  · rw [hnil, List.take_nil] at hdescribes
    rwa [hnil]
  · rwa [List.take_of_length_le (Nat.le_of_eq hall)] at hdescribes

end Reports

section Rounds

/-- A run of the input fails at this depth, and fails there also with assertions enabled. -/
structure IsCrash (run : Runner) (minDepth : Int) (off : Bool) (input : Argument)
    (out : Ending) : Prop where
  ends : ending run input off = .ok out
  notOk : out.message ≠ "ok"
  conclusive : inconclusive out.message = false
  deep : minDepth ≤ out.depth
  unprotected : ∃ check, ending run input false = .ok check ∧ check.depth = out.depth

variable {run : Runner} {minDepth maxErrors : Int} {off : Bool} {f g : Fuzzer} {input : Argument}
  {out : Ending}

/-- What becomes of an input that ended at a new depth. -/
structure Discovers (run : Runner) (minDepth : Int) (off : Bool) (f g : Fuzzer) (input : Argument)
    (out : Ending) : Prop where
  corpus : g.corpus = insertAt out.depth input f.corpus
  crashes : g.crashes = f.crashes ∨ ∃ report, g.crashes = f.crashes ++ [report] ∧
    IsCrash run minDepth off input out ∧ List.Forall₂ Describes (arguments input) report

theorem Discovers.of_keeps (h : ((remember out.depth input).after f).Keeps g) :
    Discovers run minDepth off f g input out :=
  ⟨h.corpus, .inl h.crashes⟩

theorem depth_of_unprotected {depth : Int} (h : (unprotected run input depth).result f = .ok true) :
    ∃ check, ending run input false = .ok check ∧ check.depth = depth := by
  obtain ⟨check, hcheck, h⟩ := Session.result_bind_eq_ok.1 h
  rw [result_execute] at hcheck
  exact ⟨check, hcheck, by simpa using h⟩

theorem discovers_discover (minDepth : Int) (hends : ending run input off = .ok out)
    (hconclusive : inconclusive out.message = false) (f : Fuzzer) :
    Discovers run minDepth off f ((discover run input out minDepth).after f) input out := by
  rw [discover, Session.after_bind_ok (a := ()) rfl]
  split
  · exact .of_keeps (.refl _)
  next hcond =>
    obtain ⟨hok, -, hdeep⟩ : out.message ≠ "ok" ∧ _ ∧ minDepth ≤ out.depth := by simpa using hcond
    have hchecked := isQuiet_unprotected run input out.depth ((remember out.depth input).after f)
    cases hcheck :
      (unprotected run input out.depth).result ((remember out.depth input).after f) with
    | error e =>
      rw [Session.after_bind_error hcheck]
      exact .of_keeps hchecked
    | ok isUnprotected =>
      rw [Session.after_bind_ok hcheck]
      cases isUnprotected with
      | false => exact .of_keeps hchecked
      | true =>
        rw [if_pos rfl, Session.after_bind_ok (a := ()) rfl]
        have hprinted := hchecked.trans (isQuiet_print out.message _)
        generalize (Session.print out.message).after _ = h at hprinted ⊢
        have hsearched := hprinted.trans (isQuiet_suspects run input minDepth h)
        cases hreport : (suspects run input minDepth).result h with
        | error e =>
          rw [Session.after_bind_error hreport]
          exact .of_keeps hsearched
        | ok report =>
          rw [Session.after_bind_ok hreport]
          exact ⟨hsearched.corpus, .inr ⟨report, congrArg (· ++ [report]) hsearched.crashes,
            ⟨hends, hok, hconclusive, hdeep, depth_of_unprotected hcheck⟩,
            describes_suspects hreport⟩⟩

theorem Discovers.of_start (hkeeps : f.Keeps g) {h : Fuzzer}
    (hd : Discovers run minDepth off g h input out) :
    Discovers run minDepth off f h input out := by
  obtain ⟨hcorpus, hcrashes⟩ := hd
  rw [hkeeps.corpus] at hcorpus
  rw [hkeeps.crashes] at hcrashes
  exact ⟨hcorpus, hcrashes⟩

/-- What a round makes of a fuzzer, and whether it was the last one. -/
inductive Round (run : Runner) (minDepth maxErrors : Int) (off : Bool) (f : Fuzzer) :
    Except Fault Bool → Fuzzer → Prop
  | idle {r : Except Fault Bool} {g : Fuzzer} (h : f.Keeps g) :
      Round run minDepth maxErrors off f r g
  | shrink {g : Fuzzer} {candidate entry : Argument} {out : Ending}
      (hends : ending run candidate off = .ok out) (hconclusive : inconclusive out.message = false)
      (hentry : f.corpus.lookup out.depth = some entry)
      (hsmaller : smaller candidate entry = .ok true)
      (hcorpus : g.corpus = insertAt out.depth candidate f.corpus)
      (hcrashes : g.crashes = f.crashes) : Round run minDepth maxErrors off f (.ok false) g
  | discover {r : Except Fault Bool} {g : Fuzzer} {candidate : Argument} {out : Ending}
      (hmutant : mutant.result f = .ok candidate) (hends : ending run candidate off = .ok out)
      (hconclusive : inconclusive out.message = false) (hnew : f.corpus.lookup out.depth = none)
      (h : Discovers run minDepth off f g candidate out)
      (hgoesOn : r = .ok false → g.crashes.length < maxErrors) :
      Round run minDepth maxErrors off f r g

theorem round_fuzzOnce (run : Runner) (minDepth maxErrors : Int) (off : Bool) (f : Fuzzer) :
    Round run minDepth maxErrors off f ((fuzzOnce run minDepth maxErrors off).result f)
      ((fuzzOnce run minDepth maxErrors off).after f) := by
  rw [fuzzOnce]
  have hmutated := isQuiet_mutant f
  cases hmutant : mutant.result f with
  | error e =>
    rw [Session.after_bind_error hmutant]
    exact .idle hmutated
  | ok candidate =>
    rw [Session.result_bind_ok hmutant, Session.after_bind_ok hmutant]
    have htried := hmutated.trans (isQuiet_execute run candidate off _)
    have hresult := result_execute run candidate off (mutant.after f)
    cases hends : ending run candidate off with
    | error e =>
      rw [Session.after_bind_error (hresult.trans hends)]
      exact .idle htried
    | ok out =>
      rw [Session.result_bind_ok (hresult.trans hends), Session.after_bind_ok (hresult.trans hends)]
      generalize (execute run candidate off).after (mutant.after f) = g at htried ⊢
      cases hconclusive : inconclusive out.message with
      | true => exact .idle htried
      | false =>
        rw [if_neg Bool.false_ne_true, Session.result_bind_ok Session.result_get,
          Session.after_bind_ok Session.result_get, Session.after_get, htried.corpus]
        cases hentry : f.corpus.lookup out.depth with
        | none =>
          have hd := (discovers_discover minDepth hends hconclusive g).of_start htried
          dsimp only
          cases hr : (discover run candidate out minDepth).result g with
          | error e =>
            rw [Session.result_bind_error hr, Session.after_bind_error hr]
            exact .discover hmutant hends hconclusive hentry hd nofun
          | ok u =>
            rw [Session.result_bind_ok hr, Session.after_bind_ok hr]
            refine .discover hmutant hends hconclusive hentry hd fun h => ?_
            exact Int.not_le.1 (of_decide_eq_false (Except.ok.inj h))
        | some entry =>
          dsimp only
          cases hsmaller : smaller candidate entry with
          | error e => exact .idle htried
          | ok isSmaller =>
            rw [Session.result_bind_ok (Session.result_liftM _),
              Session.after_bind_ok (Session.result_liftM _), Session.after_liftM]
            cases isSmaller with
            | false => exact .idle htried
            | true =>
              refine .shrink hends hconclusive hentry hsmaller ?_ htried.crashes
              exact congrArg (insertAt out.depth candidate) htried.corpus

/-- The fuzzer after each round, for at most `n` rounds. -/
def history (run : Runner) (minDepth maxErrors : Int) (off : Bool) : Nat → Fuzzer → List Fuzzer
  | 0, _ => []
  | n + 1, f =>
    let g := (fuzzOnce run minDepth maxErrors off).after f
    match (fuzzOnce run minDepth maxErrors off).result f with
    | .ok false => g :: history run minDepth maxErrors off n g
    | _ => [g]

/-- Fuzzing ends with the last fuzzer of its history. -/
theorem after_fuzzFor (run : Runner) (minDepth maxErrors : Int) (off : Bool) (n : Nat)
    (f : Fuzzer) :
    (fuzzFor run minDepth maxErrors off n).after f =
      (f :: history run minDepth maxErrors off n f).getLast (List.cons_ne_nil _ _) := by
  induction n generalizing f with
  | zero => rfl
  | succ n ih =>
    rw [fuzzFor]
    cases h : (fuzzOnce run minDepth maxErrors off).result f with
    | error e =>
      rw [Session.after_bind_error h]
      simp [history, h]
    | ok stop =>
      rw [Session.after_bind_ok h]
      cases stop with
      | true => simp [history, h]
      | false => simp [history, h, ih]

theorem isChain_history (run : Runner) (minDepth maxErrors : Int) (off : Bool) (n : Nat)
    (f : Fuzzer) :
    (f :: history run minDepth maxErrors off n f).IsChain fun g h =>
      ∃ r, Round run minDepth maxErrors off g r h := by
  induction n generalizing f with
  | zero => exact .singleton f
  | succ n ih =>
    have hround := round_fuzzOnce run minDepth maxErrors off f
    rw [history]
    split
    · exact .cons_cons ⟨_, hround⟩ (ih _)
    · exact .cons_cons ⟨_, hround⟩ (.singleton _)

end Rounds

end Assay.Fuzz
