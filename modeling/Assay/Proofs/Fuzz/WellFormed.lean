import Assay.Proofs.Fuzz.Draw
import Assay.Proofs.Fuzz.Format
import Assay.Proofs.Fuzz.Session

/-!
# Fuzzing keeps inputs well formed

A fuzzer whose corpus holds well-formed inputs only stays such a fuzzer, and only tries inputs with
an argument for each parameter. Their texts are well formed too. An input that was tried has no text
only if a number in it has become too long, and then fuzzing ends with that fault.
-/

namespace Assay.Fuzz

/-- An input that was tried, with its text, which is well formed; or without one, as a number in it
is too long. -/
inductive Trial (shapes : List Shape) : Argument × Except Fault String → Prop
  | run {input : Argument} {text : String} (h : WellFormed shapes input text) :
      Trial shapes (input, .ok text)
  | tooLong {input : Argument} (h : FitsAll shapes input)
      (hlong : input.toDatum.isWritable = false) : Trial shapes (input, .error Text.tooLong)

theorem FitsAll.trial {shapes : List Shape} {input : Argument} (h : FitsAll shapes input) :
    Trial shapes (input, inputText input.toDatum) := by
  cases hw : input.toDatum.isWritable with
  | true =>
    obtain ⟨text, htext⟩ := h.exists_text hw
    rw [htext.written]
    exact .run htext
  | false =>
    rw [h.inputText_long hw]
    exact .tooLong h hw

/-- The corpus is not empty and holds well-formed inputs only, and nothing else was tried. -/
structure Sound (shapes : List Shape) (f : Fuzzer) : Prop where
  entries : ∀ e ∈ f.corpus, ∃ text, WellFormed shapes e.2 text
  nonempty : f.corpus ≠ []
  tried : ∀ t ∈ f.tried, Trial shapes t

theorem mem_insertAt {k : Int} {a : Argument} {corpus : List (Int × Argument)} {e : Int × Argument}
    (h : e ∈ insertAt k a corpus) : e.2 = a ∨ e ∈ corpus := by
  induction corpus with
  | nil => exact .inl (congrArg Prod.snd (List.mem_singleton.1 h))
  | cons entry corpus ih =>
    obtain ⟨i, b⟩ := entry
    rw [insertAt] at h
    split at h
    · rcases List.mem_cons.1 h with rfl | h
      · exact .inl rfl
      · exact .inr (List.mem_cons_of_mem _ h)
    · rcases List.mem_cons.1 h with rfl | h
      · exact .inr (List.mem_cons_self ..)
      · exact (ih h).imp_right (List.mem_cons_of_mem _)

theorem insertAt_ne_nil (k : Int) (a : Argument) (corpus : List (Int × Argument)) :
    insertAt k a corpus ≠ [] := by
  cases corpus with
  | nil => simp [insertAt]
  | cons entry corpus =>
    rw [insertAt]
    split <;> simp

/-- All that is tried from one fuzzer to another is run, unless the result is that a number was too
long. -/
def RunsAll {α : Type} (f g : Fuzzer) (r : Except Fault α) : Prop :=
  ∃ new, g.tried = new ++ f.tried ∧ ((∀ t ∈ new, ∃ text, t.2 = .ok text) ∨ r = .error Text.tooLong)

namespace RunsAll

variable {α β : Type} {f g h : Fuzzer}

theorem of_tried {r : Except Fault α} (hsame : g.tried = f.tried) : RunsAll f g r :=
  ⟨[], hsame, .inl nofun⟩

theorem trans {a : α} {r : Except Fault β} (hg : RunsAll f g (.ok a : Except Fault α))
    (hh : RunsAll g h r) : RunsAll f h r := by
  obtain ⟨new, hnew, hruns⟩ := hg
  obtain ⟨new', hnew', hruns'⟩ := hh
  refine ⟨new' ++ new, by rw [hnew', hnew, List.append_assoc], hruns'.imp_left fun hall => ?_⟩
  exact List.forall_mem_append.2 ⟨hall, hruns.resolve_right nofun⟩

theorem of_error {e : Fault} (hg : RunsAll f g (.error e : Except Fault α)) :
    RunsAll f g (.error e : Except Fault β) := by
  obtain ⟨new, hnew, hruns⟩ := hg
  exact ⟨new, hnew, hruns.imp_right fun he => congrArg Except.error (Except.error.inj he)⟩

end RunsAll

/-- From a sound fuzzer the session leaves a sound fuzzer, and has a result of `P` if any. -/
structure SafeAt {α : Type} (shapes : List Shape) (x : Session α) (P : α → Prop) (f : Fuzzer) :
    Prop where
  sound : Sound shapes (x.after f)
  result : ∀ a, x.result f = .ok a → P a
  runs : RunsAll f (x.after f) (x.result f)

def Safe {α : Type} (shapes : List Shape) (x : Session α) (P : α → Prop) : Prop :=
  ∀ f, Sound shapes f → SafeAt shapes x P f

namespace Safe

variable {α β : Type} {shapes : List Shape} {x : Session α} {k : α → Session β} {P : α → Prop}
  {Q : β → Prop}

theorem pure {a : α} (h : P a) : Safe shapes (pure a) P := by
  refine fun f hf => ⟨hf, fun b hb => ?_, .of_tried rfl⟩
  obtain rfl : a = b := Except.ok.inj hb
  exact h

theorem throw (e : Fault) : Safe shapes (throw e) P := fun _ hf => ⟨hf, nofun, .of_tried rfl⟩

theorem liftM {r : Except Fault α} (h : ∀ a, r = .ok a → P a) : Safe shapes (liftM r) P := by
  refine fun f hf => ⟨?_, fun a ha => h a ?_, .of_tried ?_⟩
  · rw [Session.after_liftM]
    exact hf
  · rwa [Session.result_liftM] at ha
  · rw [Session.after_liftM]

theorem get : Safe shapes get (Sound shapes) := by
  refine fun f hf => ⟨hf, fun g hg => ?_, .of_tried rfl⟩
  obtain rfl : f = g := Except.ok.inj hg
  exact hf

theorem modify {u : Fuzzer → Fuzzer} (h : ∀ f, Sound shapes f → Sound shapes (u f))
    (htried : ∀ f, (u f).tried = f.tried) : Safe shapes (modify u) fun _ => True :=
  fun f hf => ⟨h f hf, fun _ _ => trivial, .of_tried (htried f)⟩

theorem print (line : String) : Safe shapes (Session.print line) fun _ => True :=
  modify (fun _ hf => ⟨hf.entries, hf.nonempty, hf.tried⟩) fun _ => rfl

/-- A draw changes the source only. -/
theorem draw {d : Draw α} (h : Yields d P) : Safe shapes (Session.draw d) P := by
  refine fun f hf => ⟨⟨hf.entries, hf.nonempty, hf.tried⟩, fun a ha => ?_, .of_tried rfl⟩
  obtain ⟨b, s, hrun, hb⟩ := h f.source
  obtain rfl : b = a := by
    have hresult : (d.run.run f.source).1 = .ok a := ha
    rw [hrun] at hresult
    exact Except.ok.inj hresult
  exact hb

theorem bind (hx : Safe shapes x P) (hk : ∀ a, P a → Safe shapes (k a) Q) :
    Safe shapes (x >>= k) Q := by
  intro f hf
  obtain ⟨hsound, hresult, hruns⟩ := hx f hf
  cases h : x.result f with
  | error e =>
    rw [h] at hruns
    refine ⟨?_, fun b hb => ?_, ?_⟩
    · rwa [Session.after_bind_error h]
    · rw [Session.result_bind_error h] at hb
      cases hb
    · rw [Session.after_bind_error h, Session.result_bind_error h]
      exact hruns.of_error
  | ok a =>
    rw [h] at hruns
    obtain ⟨hsound', hresult', hruns'⟩ := hk a (hresult a h) _ hsound
    refine ⟨?_, fun b hb => ?_, ?_⟩
    · rwa [Session.after_bind_ok h]
    · rw [Session.result_bind_ok h] at hb
      exact hresult' b hb
    · rw [Session.after_bind_ok h, Session.result_bind_ok h]
      exact hruns.trans hruns'

end Safe

/-! ### Inputs and their members -/

section Members

variable {shapes : List Shape} {input a b : Argument} {i : Nat}

theorem FitsAll.memberAt (h : FitsAll shapes input) (ha : memberAt input i = .ok a) :
    ∃ s, shapes[i]? = some s ∧ Fits s a := by
  obtain ⟨mark, hargs⟩ := h
  have hget := getElem?_arguments ha
  obtain ⟨hi, hget⟩ := List.getElem?_eq_some_iff.1 hget
  have hi' : i < shapes.length := hargs.length_eq ▸ hi
  refine ⟨shapes[i], List.getElem?_eq_getElem hi', ?_⟩
  rw [← hget]
  exact (List.forall₂_iff_get.1 hargs).2 i hi' hi

theorem forall₂_set {args : List Argument} (h : List.Forall₂ Fits shapes args) {s : Shape}
    (hs : shapes[i]? = some s) (hb : Fits s b) : List.Forall₂ Fits shapes (args.set i b) := by
  induction h generalizing i with
  | nil => exact .nil
  | cons ha hargs ih =>
    cases i with
    | zero =>
      obtain rfl := Option.some.inj hs
      exact .cons hb hargs
    | succ i => exact .cons ha (ih hs)

/-- An argument may take the place of another one for the same parameter. -/
theorem FitsAll.replaceAt (h : FitsAll shapes input) {s : Shape} (hs : shapes[i]? = some s)
    (hb : Fits s b) {changed : Argument} (hchanged : replaceAt input i b = .ok changed) :
    FitsAll shapes changed := by
  obtain ⟨mark, hargs⟩ := h
  obtain rfl := Except.ok.inj hchanged
  exact .list mark (forall₂_set hargs hs hb)

end Members

/-! ### Sessions -/

section Sessions

variable {shapes : List Shape}

theorem yields_seed {f : Fuzzer} (hf : Sound shapes f) {e : Int × Argument}
    {rest : List (Int × Argument)} (hcorpus : f.corpus = e :: rest) :
    Yields (Draw.oneOf e.2 (rest.map Prod.snd)) (FitsAll shapes) := by
  refine (Yields.oneOf e.2 _).mono fun a ha => ?_
  obtain ⟨entry, hentry, rfl⟩ : ∃ entry ∈ f.corpus, entry.2 = a := by
    rw [← List.map_cons (f := Prod.snd), ← hcorpus] at ha
    exact List.mem_map.1 ha
  obtain ⟨text, htext⟩ := hf.entries entry hentry
  exact htext.fits

theorem safe_mutant : Safe shapes mutant (FitsAll shapes) := by
  refine Safe.get.bind fun f hf => ?_
  split
  · exact .throw _
  next depth a rest hcorpus =>
    exact (Safe.draw (yields_seed hf hcorpus)).bind fun seed hseed => .draw (yields_mutate hseed)

/-- A sound fuzzer always has a mutated copy of one of its inputs. -/
theorem Sound.exists_mutant {f : Fuzzer} (hf : Sound shapes f) :
    ∃ candidate, mutant.result f = .ok candidate ∧ FitsAll shapes candidate := by
  obtain ⟨e, rest, hcorpus⟩ := List.exists_cons_of_ne_nil hf.nonempty
  obtain ⟨seed, s, hdrawn, hseed⟩ := yields_seed hf hcorpus f.source
  obtain ⟨candidate, s', hmutated, hfits⟩ := yields_mutate hseed s
  refine ⟨candidate, ?_, hfits⟩
  have hresult : (Session.draw (Draw.oneOf e.2 (rest.map Prod.snd))).result f = .ok seed :=
    congrArg Prod.fst hdrawn
  have hafter : ((Session.draw (Draw.oneOf e.2 (rest.map Prod.snd))).after f).source = s :=
    congrArg Prod.snd hdrawn
  rw [mutant, Session.result_bind_ok Session.result_get, Session.after_get]
  simp only [hcorpus]
  rw [Session.result_bind_ok hresult]
  refine congrArg Prod.fst (?_ : (mutate seed).run.run _ = (.ok candidate, s'))
  rw [hafter]
  exact hmutated

variable (run : Runner)

/-- An input that fits is run, unless a number in it is too long. -/
theorem safe_execute {input : Argument} (h : FitsAll shapes input) (off : Bool) :
    Safe shapes (execute run input off) fun _ => ∃ text, WellFormed shapes input text := by
  refine fun f hf => ⟨?_, fun out hout => ?_, [(input, inputText input.toDatum)], ?_, ?_⟩
  · rw [after_execute]
    exact ⟨hf.entries, hf.nonempty, List.forall_mem_cons.2 ⟨h.trial, hf.tried⟩⟩
  · rw [result_execute] at hout
    obtain ⟨text, htext, -⟩ := bind_eq_ok.1 hout
    exact ⟨text, h.wellFormed htext⟩
  · rw [after_execute]
    rfl
  · cases hw : input.toDatum.isWritable with
    | true =>
      obtain ⟨text, htext⟩ := h.exists_text hw
      exact .inl (List.forall_mem_singleton.2 ⟨text, htext.written⟩)
    | false =>
      rw [result_execute, ending, h.inputText_long hw]
      exact .inr rfl

theorem safe_searchChange {input : Argument} (h : FitsAll shapes input) (i : Nat) (minDepth : Int)
    (n : Nat) : Safe shapes (searchChange run input i minDepth n) fun _ => True := by
  induction n with
  | zero => exact .pure trivial
  | succ n ih =>
    refine safe_mutant.bind fun m hm => ?_
    refine (Safe.liftM fun a ha => hm.memberAt ha).bind fun mutated hmutated => ?_
    obtain ⟨s, hs, hfits⟩ := hmutated
    refine (Safe.liftM (P := fun _ => True) fun _ _ => trivial).bind fun old _ => ?_
    split
    · exact ih
    · refine (Safe.liftM fun c hc => h.replaceAt hs hfits hc).bind fun changed hchanged => ?_
      refine (safe_execute run hchanged false).bind fun out _ => ?_
      split
      · exact .pure trivial
      · exact ih

theorem safe_suspectsFrom {input : Argument} (h : FitsAll shapes input) (minDepth : Int)
    (i n : Nat) : Safe shapes (suspectsFrom run input minDepth i n) fun _ => True := by
  induction n generalizing i with
  | zero => exact .pure trivial
  | succ n ih =>
    refine Safe.get.bind fun f _ => (safe_searchChange run h i minDepth f.rounds).bind ?_
    intro found _
    refine (Safe.liftM (P := fun _ => True) fun _ _ => trivial).bind fun value _ => ?_
    exact (ih (i + 1)).bind fun rest _ => .pure trivial

theorem safe_suspects {input : Argument} (h : FitsAll shapes input) (minDepth : Int) :
    Safe shapes (suspects run input minDepth) fun _ => True :=
  (Safe.liftM (P := fun _ => True) fun _ _ => trivial).bind fun n _ =>
    safe_suspectsFrom run h minDepth 0 n

theorem safe_remember {input : Argument} {text : String} (h : WellFormed shapes input text)
    (depth : Int) : Safe shapes (remember depth input) fun _ => True := by
  refine .modify (fun f hf => ⟨fun e he => ?_, insertAt_ne_nil depth input f.corpus, hf.tried⟩)
    fun _ => rfl
  rcases mem_insertAt he with rfl | he
  · exact ⟨text, h⟩
  · exact hf.entries e he

theorem safe_discover {input : Argument} {text : String} (h : WellFormed shapes input text)
    (out : Ending) (minDepth : Int) :
    Safe shapes (discover run input out minDepth) fun _ => True := by
  refine (safe_remember h out.depth).bind fun _ _ => ?_
  split
  · exact .pure trivial
  · refine ((safe_execute run h.fits false).bind fun check _ =>
      .pure (P := fun _ => True) trivial).bind fun isUnprotected _ => ?_
    split
    · refine (Safe.print out.message).bind fun _ _ => (safe_suspects run h.fits minDepth).bind ?_
      exact fun found _ => .modify (fun f hf => ⟨hf.entries, hf.nonempty, hf.tried⟩) fun _ => rfl
    · exact .pure trivial

theorem safe_fuzzOnce (minDepth maxErrors : Int) (off : Bool) :
    Safe shapes (fuzzOnce run minDepth maxErrors off) fun _ => True := by
  refine safe_mutant.bind fun candidate hcandidate => (safe_execute run hcandidate off).bind ?_
  rintro out ⟨text, hformed⟩
  split
  · exact .pure trivial
  · refine Safe.get.bind fun f _ => ?_
    split
    · refine (safe_discover run hformed out minDepth).bind fun _ _ => Safe.get.bind fun g _ => ?_
      exact .pure trivial
    next entry _ =>
      refine (Safe.liftM (P := fun _ => True) fun _ _ => trivial).bind fun isSmaller _ => ?_
      split
      · exact (safe_remember hformed out.depth).bind fun _ _ => .pure trivial
      · exact .pure trivial

theorem safe_fuzzFor (minDepth maxErrors : Int) (off : Bool) (n : Nat) :
    Safe shapes (fuzzFor run minDepth maxErrors off n) fun _ => True := by
  induction n with
  | zero => exact .pure trivial
  | succ n ih =>
    refine (safe_fuzzOnce run minDepth maxErrors off).bind fun stop _ => ?_
    split
    · exact .pure trivial
    · exact ih

theorem safe_fuzz (minDepth maxErrors : Int) (off : Bool) :
    Safe shapes (fuzz run minDepth maxErrors off) fun _ => True :=
  Safe.get.bind fun f _ => safe_fuzzFor run minDepth maxErrors off f.rounds

end Sessions

/-- The second fuzzer comes out of the first by rounds of fuzzing, with any machines. -/
inductive Fuzzed (f : Fuzzer) : Fuzzer → Prop
  | refl : Fuzzed f f
  | round {g : Fuzzer} (run : Runner) (minDepth maxErrors : Int) (off : Bool) (h : Fuzzed f g) :
      Fuzzed f ((fuzzOnce run minDepth maxErrors off).after g)

namespace Fuzzed

variable {f g : Fuzzer}

theorem fuzzFor (h : Fuzzed f g) (run : Runner) (minDepth maxErrors : Int) (off : Bool) (n : Nat) :
    Fuzzed f ((fuzzFor run minDepth maxErrors off n).after g) := by
  induction n generalizing g with
  | zero => exact h
  | succ n ih =>
    have hround := h.round run minDepth maxErrors off
    rw [Fuzz.fuzzFor]
    cases hr : (fuzzOnce run minDepth maxErrors off).result g with
    | error e => rwa [Session.after_bind_error hr]
    | ok stop =>
      rw [Session.after_bind_ok hr]
      cases stop with
      | true => exact hround
      | false => exact ih hround

theorem sound {shapes : List Shape} (h : Fuzzed f g) (hf : Sound shapes f) : Sound shapes g := by
  induction h with
  | refl => exact hf
  | round run minDepth maxErrors off _ ih =>
    exact (safe_fuzzOnce run minDepth maxErrors off _ ih).sound

end Fuzzed

theorem not_mem_descriptors (shapes : List Shape) : ')' ∉ shapes.flatMap Shape.descriptor := by
  intro hmem
  obtain ⟨s, -, hmem⟩ := List.mem_flatMap.1 hmem
  cases s with
  | number l => cases l <;> exact absurd hmem (by decide)
  | numbers => exact absurd hmem (by decide)
  | object name init long named takes =>
    have hinit : ')' ∉ init.map Letter.char := by
      simp only [List.mem_map, not_exists, not_and]
      intro l _
      cases l <;> decide
    have hname := not_mem_name named (c := ')') (by decide) (by decide)
    simp [Shape.descriptor, hinit] at hmem hname
    exact hname hmem

/-- A fuzzer without a given corpus begins with one random input. -/
theorem build_drawn {params : List Parameter} {method : String}
    (hparams : Parameter.ofMethod method = .ok params) {source s : Source} {ds : List Datum}
    (hdrawn : (randomInput params).run.run source = (.ok ds, s)) (rounds : Nat) :
    build method none none rounds source = ([], .ok
      { params, corpus := [(0, .ofDatum (.list ds))], rounds, crashes := [], failures := []
        printed := [], source := s }) := by
  have hseed : (seedCorpus params none).run.run source = (.ok [(0, .list ds)], s) := by
    rw [seedCorpus, ExceptT.run_bind, StateT.run_bind, hdrawn]
    rfl
  simp only [build, hparams, hseed]
  rfl

/-- The random input is well formed. -/
theorem build_random {shapes : List Shape} {method : String}
    (hparams : Parameter.ofMethod method = .ok (shapes.map Shape.parameter)) (rounds : Nat)
    (source : Source) :
    ∃ f, build method none none rounds source = ([], .ok f) ∧
      f.params = shapes.map Shape.parameter ∧ f.rounds = rounds ∧ f.tried = [] ∧
      Sound shapes f := by
  obtain ⟨ds, s, hdrawn, hds⟩ := yields_randomInput shapes source
  obtain ⟨text, hformed⟩ := wellFormed_drawn hds
  refine ⟨_, build_drawn hparams hdrawn rounds, rfl, rfl, rfl, ?_, List.cons_ne_nil _ _, nofun⟩
  intro e he
  obtain rfl := List.mem_singleton.1 he
  exact ⟨text, hformed⟩

/-- A method whose parameters are numbers, arrays of numbers, and objects made from numbers is only
ever fuzzed with inputs that have an argument for each parameter. What is run are their texts, which
are read as a value of the right kind for each. An input has no text only if a number in it is too
long; fuzzing then ends with that fault. -/
theorem fuzz_keeps_wellFormed (shapes : List Shape) (method : String) (front back : List Char)
    (hmethod : method.toList = front ++ '(' :: (shapes.flatMap Shape.descriptor ++ ')' :: back))
    (hopen : '(' ∉ front) (hclose : ')' ∉ front) (rounds : Nat) (source : Source) :
    ∃ f, build method none none rounds source = ([], .ok f) ∧
      f.params = shapes.map Shape.parameter ∧ f.rounds = rounds ∧ f.tried = [] ∧
      ∀ g, Fuzzed f g →
        (∀ e ∈ g.corpus, ∃ text, WellFormed shapes e.2 text) ∧
        (∀ t ∈ g.tried, Trial shapes t) ∧
        (∃ candidate, mutant.result g = .ok candidate ∧ FitsAll shapes candidate) ∧
        ∀ (run : Runner) (minDepth maxErrors : Int) (off : Bool),
          Fuzzed f ((fuzz run minDepth maxErrors off).after g) ∧
          ∃ new, ((fuzz run minDepth maxErrors off).after g).tried = new ++ g.tried ∧
            ((∀ t ∈ new, ∃ text, t.2 = .ok text) ∨
              (fuzz run minDepth maxErrors off).result g = .error Text.tooLong) := by
  have hinside : ')' ∉ front ++ '(' :: shapes.flatMap Shape.descriptor := by
    rw [List.mem_append, List.mem_cons]
    exact not_or.2 ⟨hclose, not_or.2 ⟨by decide, not_mem_descriptors shapes⟩⟩
  obtain ⟨f, hbuild, hparams, hrounds, htried, hsound⟩ :=
    build_random (ofMethod_descriptors hmethod hopen hinside) rounds source
  refine ⟨f, hbuild, hparams, hrounds, htried, fun g hg => ?_⟩
  have hg' := hg.sound hsound
  refine ⟨hg'.entries, hg'.tried, hg'.exists_mutant, fun run minDepth maxErrors off => ⟨?_, ?_⟩⟩
  · exact hg.fuzzFor run minDepth maxErrors off g.rounds
  · exact (safe_fuzz run minDepth maxErrors off g hg').runs

/-- A number, an object with a constructor of two numbers, and an array. -/
def areaShapes : List Shape :=
  [.number .int,
    .object "geo/Rect" [.int, .short] (by decide) (List.all_eq_true.1 (by decide)) (by decide),
    .numbers]

def areaMethod : String := "geo.Main.area:(ILgeo/Rect<init>IS;[I)I"

theorem fuzz_keeps_area :
    ∃ f, build areaMethod none none 1000 ⟨[3, 0, -7], 42, 0⟩ = ([], .ok f) ∧
      ∀ g, Fuzzed f g → (∀ e ∈ g.corpus, ∃ text, WellFormed areaShapes e.2 text) ∧
        (∀ t ∈ g.tried, Trial areaShapes t) ∧
        ∃ candidate, mutant.result g = .ok candidate ∧ FitsAll areaShapes candidate := by
  obtain ⟨f, hbuild, -, -, -, hall⟩ := fuzz_keeps_wellFormed areaShapes areaMethod
    "geo.Main.area:".toList "I".toList (by decide) (by decide) (by decide) 1000 ⟨[3, 0, -7], 42, 0⟩
  exact ⟨f, hbuild, fun g hg => ⟨(hall g hg).1, (hall g hg).2.1, (hall g hg).2.2.1⟩⟩

end Assay.Fuzz
