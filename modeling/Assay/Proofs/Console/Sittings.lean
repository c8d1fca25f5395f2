import Assay.Proofs.Console.Replay

/-!
# Sittings

A sitting is a stepwise replay that starts with the files that the sitting before it left. `Resumes`
says what a single one does, for whatever reason the file is there; `Passed` is what any number of
them keep: a case before the point that is reached was right when it was last replayed, or it was
passed over from the beginning on.
-/

namespace Assay

/-- The bench has this suite, and a program that replies to all its cases with an answer. -/
structure Bench.Serves (b : Bench) (cases : List Case) : Prop where
  suite : b.cases = .ok cases
  named : b.program ≠ []
  answers : ∀ c ∈ cases, b.Answers c

/-- The desk at the start of a program that finds these files. -/
def Desk.holding (files : Console.Files) : Desk := ⟨"", [], [], [], files⟩

namespace Console

/-- A stepwise replay, with the files that it found, how it ended and what it left. -/
structure Sitting where
  bench : Bench
  files : Files
  stop : Except Stop Unit
  desk : Desk

namespace Sitting

def of (b : Bench) (files : Files) : Sitting :=
  let r := (replay b true none).start (.holding files)
  ⟨b, files, r.1, r.2⟩

/-- Sittings one after the other. -/
def sequence : List Bench → Files → List Sitting
  | [], _ => []
  | b :: bs, files => of b files :: sequence bs (of b files).desk.files

variable (cases : List Case) (s : Sitting)

/-- The place of the first case that is replayed. -/
def first : Nat := resumePoint cases s.files

/-- The case at this place is replayed. -/
def Ran (i : Nat) : Prop := s.first cases ≤ i ∧ i < s.first cases + s.desk.calls.length

/-- The case at this place is answered right when its turn comes: one call was made for each case
from the first one on. -/
def RightAt (i : Nat) (c : Case) : Prop := s.bench.IsRight (i - s.first cases) c

/-- The place that a sitting comes to: the end, or the place to take up at again. -/
def reached : Nat :=
  match s.stop with
  | .ok _ => cases.length
  | .error _ => resumePoint cases s.desk.files

/-- All the cases that were left are right, and there is nothing to take up at. -/
structure Completes : Prop where
  right : ∀ i c, s.first cases ≤ i → cases[i]? = some c → s.RightAt cases i c
  stop : s.stop = .ok ()
  calls : (cases.drop (s.first cases)).mapM s.bench.callFor = .ok s.desk.calls
  file : s.desk.files.lookup stepwiseFile = none
  total : s.desk.printed.getLast? =
    some s!"Total {(cases.drop (s.first cases)).length}/{(cases.drop (s.first cases)).length}"

/-- The case at this place is the first one that is wrong, and it is to be taken up at. -/
structure StopsAt (i : Nat) (x : Case) : Prop where
  first_le : s.first cases ≤ i
  found : cases[i]? = some x
  right : ∀ j c, s.first cases ≤ j → j < i → cases[j]? = some c → s.RightAt cases j c
  wrong : ¬ s.RightAt cases i x
  stop : s.stop = .error (.exit (-1))
  calls : ((cases.take (i + 1)).drop (s.first cases)).mapM s.bench.callFor = .ok s.desk.calls
  file : ∃ line, x.encode = .ok line ∧ s.desk.files.lookup stepwiseFile = some line

structure Resumes : Prop where
  others : ∀ path, path ≠ stepwiseFile → s.desk.files.lookup path = s.files.lookup path
  ends : s.Completes cases ∨ ∃ i x, s.StopsAt cases i x

/-- The place that sittings come to from a place to start at. -/
def reachedBy : Nat → List Sitting → Nat
  | start, [] => start
  | _, s :: rest => reachedBy (s.reached cases) rest

/-- The case at the place was right when it was last replayed, or it is before the start and was
never replayed. -/
def Passed (start : Nat) (sittings : List Sitting) (i : Nat) (c : Case) : Prop :=
  (∃ before s after, sittings = before ++ s :: after ∧ s.Ran cases i ∧ s.RightAt cases i c ∧
    ∀ s' ∈ after, ¬ s'.Ran cases i) ∨
  i < start ∧ ∀ s ∈ sittings, ¬ s.Ran cases i

variable {cases : List Case} {s : Sitting} {b : Bench} {files : Files}

theorem resumes_of_right (hfiled : ∀ c ∈ cases, c.IsFiled) (hserves : b.Serves cases)
    (hfiles : IsResumable cases files)
    (hright : AllRight b 0 (cases.drop (resumePoint cases files))) :
    (of b files).Resumes cases := by
  let rest := cases.drop (resumePoint cases files)
  have hrest : ∀ c ∈ rest, c ∈ cases := fun c hc => List.mem_of_mem_drop hc
  obtain ⟨e, he, hstart⟩ := start_replay hfiled hserves.suite hserves.named hfiles
    (rfl : (Desk.holding files).files = files)
  obtain ⟨calls, hcalls, hdoes⟩ := does_replayFrom (fun c hc => hfiled c (hrest c hc))
    (fun c hc => hserves.answers c (hrest c hc)) hright ⟨0, 0⟩
  obtain ⟨g, hg, hbecomes⟩ := hdoes e he.length_calls
  have hdone := he.trans hbecomes
  rw [start_bind_ok hg, Nat.zero_add] at hstart
  have hend : of b files = ⟨b, files, .ok (), { g with
      files := Files.without stepwiseFile g.files
      printed := g.printed ++
        Outline.messageLines g.lead s!"Total {rest.length}/{rest.length}" }⟩ := by
    rw [of, hstart]
    rfl
  have hfound : g.files = files := hdone.files
  have hlead : g.lead = "" := hdone.lead
  rw [hend, hfound, hlead, messageLines_total]
  refine ⟨fun path hpath => Files.lookup_without_of_ne hpath,
    .inl ⟨fun i c hi hc => ?_, rfl, ?_, Files.lookup_without, ?_⟩⟩
  · have hi : resumePoint cases files ≤ i := hi
    have hturn := allRight_iff.1 hright (i - resumePoint cases files) c
      (by rw [List.getElem?_drop, Nat.add_sub_of_le hi, hc])
    rwa [Nat.zero_add] at hturn
  · rw [hdone.calls]
    exact hcalls
  · exact List.getLast?_concat

theorem resumes_of_wrong {front back : List Case} {x : Case} (hfiled : ∀ c ∈ cases, c.IsFiled)
    (hserves : b.Serves cases) (hfiles : IsResumable cases files)
    (hrest : cases.drop (resumePoint cases files) = front ++ x :: back)
    (hright : AllRight b 0 front) (hwrong : ¬ b.IsRight (0 + front.length) x) :
    (of b files).Resumes cases := by
  have hsub : ∀ c ∈ front ++ [x], c ∈ cases := by
    intro c hc
    refine List.mem_of_mem_drop (i := resumePoint cases files) ?_
    rw [hrest, List.append_cons]
    exact List.mem_append_left back hc
  obtain ⟨e, he, hstart⟩ := start_replay hfiled hserves.suite hserves.named hfiles
    (rfl : (Desk.holding files).files = files)
  obtain ⟨calls, line, hcalls, hline, hdoes⟩ :=
    does_replayFrom_wrong (fun c hc => hfiled c (hsub c hc))
      (fun c hc => hserves.answers c (hsub c hc)) hright hwrong ⟨0, 0⟩
  obtain ⟨g, hg, hbecomes⟩ := hdoes e he.length_calls
  have hdone := he.trans hbecomes
  rw [hrest, start_bind_error hg] at hstart
  have hend : of b files = ⟨b, files, .error (.exit (-1)), g⟩ := by
    rw [of, hstart]
  have hleft : g.files = Files.put stepwiseFile line files := hdone.files
  have hplace : ∀ n, cases[resumePoint cases files + n]? = (front ++ x :: back)[n]? :=
    fun n => by rw [← hrest, List.getElem?_drop]
  rw [hend]
  refine ⟨fun path hpath => ?_, .inr ⟨resumePoint cases files + front.length, x,
    Nat.le_add_right _ _, ?_, fun j c hj hlt hc => ?_, ?_, rfl, ?_, line, hline, ?_⟩⟩
  · rw [hleft]
    exact Files.lookup_put_of_ne hpath
  · rw [hplace]
    simp
  · have hj : resumePoint cases files ≤ j := hj
    have hin : j - resumePoint cases files < front.length := by omega
    have hturn := allRight_iff.1 hright (j - resumePoint cases files) c
      (by rw [← List.getElem?_append_left hin, ← hplace, Nat.add_sub_of_le hj, hc])
    rwa [Nat.zero_add] at hturn
  · rwa [RightAt, first, Nat.add_sub_cancel_left, ← Nat.zero_add front.length]
  · -- the cases between two places, in terms of those behind the first place
    have hslice : (cases.take (resumePoint cases files + (front.length + 1))).drop
        (resumePoint cases files) = (front ++ x :: back).take (front.length + 1) := by
      rw [← hrest, List.take_drop]
    have hlength : front.length + 1 = (front ++ [x]).length := by simp
    rw [first, Nat.add_assoc, hslice, List.append_cons, hlength, List.take_left, hdone.calls]
    exact hcalls
  · rw [hleft]
    exact Files.lookup_put

theorem of_resumes (hfiled : ∀ c ∈ cases, c.IsFiled) (hserves : b.Serves cases)
    (hfiles : IsResumable cases files) : (of b files).Resumes cases := by
  rcases allRight_or b 0 (cases.drop (resumePoint cases files)) with
    hright | ⟨front, x, back, hrest, hright, hwrong⟩
  · exact resumes_of_right hfiled hserves hfiles hright
  · exact resumes_of_wrong hfiled hserves hfiles hrest hright hwrong

theorem Resumes.isResumable (h : s.Resumes cases) : IsResumable cases s.desk.files := by
  rcases h.ends with hcomplete | ⟨i, x, hstop⟩
  · exact .inl hcomplete.file
  · obtain ⟨line, hline, hfile⟩ := hstop.file
    exact .inr ⟨x, List.mem_of_getElem? hstop.found, line, hline, hfile⟩

theorem Resumes.resumePoint_le (h : s.Resumes cases) :
    resumePoint cases s.desk.files ≤ s.reached cases := by
  rcases h.ends with hcomplete | ⟨i, x, hstop⟩
  · rw [resumePoint_of_none hcomplete.file]
    exact Nat.zero_le _
  · rw [reached, hstop.stop]

/-- The wrong case is not before the place to take up at. -/
theorem StopsAt.reached_le {i : Nat} {x : Case} (h : s.StopsAt cases i x) :
    s.reached cases ≤ i := by
  obtain ⟨line, hline, hfile⟩ := h.file
  rw [reached, h.stop]
  simp only [resumePoint_of_some hfile]
  by_contra hlt
  rw [Nat.not_le] at hlt
  obtain ⟨hi, hx⟩ := List.getElem?_eq_some_iff.1 h.found
  have hnot : (cases[i].encode.toOption == some line) = false := List.not_of_lt_findIdx hlt
  rw [hx, hline, beq_eq_false_iff_ne] at hnot
  exact hnot rfl

/-- A case before the point that a sitting reaches was replayed with the right answer, unless it was
passed over. -/
theorem Resumes.right_of_lt (h : s.Resumes cases) {i : Nat} {c : Case} (hc : cases[i]? = some c)
    (hi : i < s.reached cases) (hfirst : s.first cases ≤ i) :
    s.Ran cases i ∧ s.RightAt cases i c := by
  have hlt : i < cases.length := (List.getElem?_eq_some_iff.1 hc).1
  rcases h.ends with hcomplete | ⟨j, x, hstop⟩
  · have hlength := (mapM_eq_ok.1 hcomplete.calls).length_eq
    rw [List.length_drop] at hlength
    exact ⟨⟨hfirst, by omega⟩, hcomplete.right i c hfirst hc⟩
  · have hle := hstop.reached_le
    have hj : j < cases.length := (List.getElem?_eq_some_iff.1 hstop.found).1
    have hlength := (mapM_eq_ok.1 hstop.calls).length_eq
    rw [List.length_drop, List.length_take] at hlength
    exact ⟨⟨hfirst, by omega⟩, hstop.right i c hfirst (by omega) hc⟩

theorem resumes_of_mem_sequence (hfiled : ∀ c ∈ cases, c.IsFiled) {benches : List Bench}
    (hserves : ∀ b ∈ benches, b.Serves cases) (hfiles : IsResumable cases files) :
    ∀ s ∈ sequence benches files, s.Resumes cases := by
  induction benches generalizing files with
  | nil => exact fun s hs => absurd hs List.not_mem_nil
  | cons b bs ih =>
    obtain ⟨hb, hbs⟩ := List.forall_mem_cons.1 hserves
    have hfirst := of_resumes hfiled hb hfiles
    exact List.forall_mem_cons.2 ⟨hfirst, ih hbs hfirst.isResumable⟩

/-- What the sittings pass is as it should be, whatever place the first of them was said to start
at. -/
theorem passed_of_lt (hfiled : ∀ c ∈ cases, c.IsFiled) {benches : List Bench}
    (hserves : ∀ b ∈ benches, b.Serves cases) (hfiles : IsResumable cases files) {start : Nat}
    (hstart : resumePoint cases files ≤ start) {i : Nat} {c : Case} (hc : cases[i]? = some c)
    (hi : i < reachedBy cases start (sequence benches files)) :
    Passed cases start (sequence benches files) i c := by
  induction benches generalizing files start with
  | nil => exact .inr ⟨hi, fun s hs => absurd hs List.not_mem_nil⟩
  | cons b bs ih =>
    obtain ⟨hb, hbs⟩ := List.forall_mem_cons.1 hserves
    have hfirst := of_resumes hfiled hb hfiles
    -- the later sittings decide, unless none of them replays the case
    rcases ih hbs hfirst.isResumable hfirst.resumePoint_le hi with
      ⟨before, s, after, heq, hs⟩ | ⟨hlt, hnone⟩
    · refine .inl ⟨of b files :: before, s, after, ?_, hs⟩
      rw [sequence, heq, List.cons_append]
    · by_cases hle : (of b files).first cases ≤ i
      · obtain ⟨hran, hright⟩ := hfirst.right_of_lt hc hlt hle
        exact .inl ⟨[], of b files, _, rfl, hran, hright, hnone⟩
      · have hbefore : i < start := Nat.lt_of_lt_of_le (Nat.not_le.1 hle) hstart
        exact .inr ⟨hbefore, List.forall_mem_cons.2 ⟨fun hran => hle hran.1, hnone⟩⟩

/-- Every sitting takes up where the one before it stopped, at the first case with the line in the
file, and replays the cases from there up to the first wrong one. No case is passed unless it was
right when it was last replayed. -/
theorem stepwise_takes_up_where_stopped {text : String} {cases : List Case} {benches : List Bench}
    {files : Files} (hsuite : Case.decodeAll text = .ok cases) (hback : ∀ c ∈ cases, c.ReadsBack)
    (hserves : ∀ b ∈ benches, b.Serves cases) (hfiles : IsResumable cases files) :
    (∀ c ∈ cases, ∀ line found, c.encode = .ok line →
      List.lookup stepwiseFile found = some line → resumePoint cases found = cases.idxOf c) ∧
    (∀ s ∈ sequence benches files, s.Resumes cases) ∧
    ∀ i c, cases[i]? = some c →
      i < reachedBy cases (resumePoint cases files) (sequence benches files) →
      Passed cases (resumePoint cases files) (sequence benches files) i c := by
  have hfiled : ∀ c ∈ cases, c.IsFiled := fun c hc => Case.isFiled hsuite hc (hback c hc)
  refine ⟨fun c hc line found hline hfound => resumePoint_eq_idxOf hfiled hc hline hfound,
    resumes_of_mem_sequence hfiled hserves hfiles, fun i c hc hi => ?_⟩
  exact passed_of_lt hfiled hserves hfiles (Nat.le_refl _) hc hi

/-- A suite with a case that occurs twice. -/
def roundText : String := "B.f:(Z)V (true) -> ok\nB.f:(Z)V (false) -> *\nB.f:(Z)V (true) -> ok"

/-- The case that ends, and the one that runs forever. -/
def roundCase (ends : Bool) : Case :=
  ⟨⟨⟨"B"⟩, "f", [.boolean], none⟩, [.ofBool ends], if ends then "ok" else "*"⟩

def roundCases : List Case := [roundCase true, roundCase false, roundCase true]

/-- A program that runs forever where it should, but only if that is the first thing it is called
for. -/
def roundBench : Bench where
  cases := .ok roundCases
  programs n command :=
    if command.getLast? = some "(true)" then .done "note\nok:27\n" ["warning"] 3
    else if n = 0 then .timedOut else .failed
  program := ["prog"]
  script := none
  folder := "/work"
  interpreter := "/work/bin/python"

theorem serves_roundBench : roundBench.Serves roundCases := by
  refine ⟨rfl, List.cons_ne_nil _ _, fun c hc n call hcall => ?_⟩
  simp only [roundBench]
  split
  · exact ⟨"ok:27", by decide +kernel, 'o', "k:27".toList, by decide +kernel, by decide⟩
  · split <;> trivial

theorem decode_roundCase (ends : Bool) {text line : String} {tail : List Char}
    (htext : (roundCase ends).input.encode = .ok text)
    (hline : line.toList = (roundCase ends).method.encode.toList ++
      ' ' :: (text.toList ++ ' ' :: '-' :: '>' :: ' ' :: tail))
    (hresult : Text.firstLine tail = (roundCase ends).result.toList) :
    Case.decode line = .ok (roundCase ends) := by
  have hmethod : (roundCase ends).method.IsPlain := by
    change MethodId.IsPlain ⟨⟨"B"⟩, "f", [.boolean], none⟩
    exact ⟨by decide, by simp, by simp, by decide, by decide⟩
  have hinput : ∀ v ∈ (roundCase ends).input, v.IsPlain := List.forall_mem_singleton.2 (.bool _)
  have hw : (roundCase ends).input.IsWritable := List.forall_mem_singleton.2 rfl
  exact Case.decode_of_parts (hmethod.not_mem_encode (.inl rfl)) hmethod.decode_encode hinput hw
    htext hline hresult

theorem decodeAll_roundText : Case.decodeAll roundText = .ok roundCases := by
  have hlines : Text.feedLines (Text.fromFile roundText) =
      ["B.f:(Z)V (true) -> ok\n", "B.f:(Z)V (false) -> *\n", "B.f:(Z)V (true) -> ok"] := by
    decide +kernel
  rw [Case.decodeAll, hlines]
  exact mapM_eq_ok.2 (.cons (decode_roundCase true rfl rfl rfl)
    (.cons (decode_roundCase false rfl rfl rfl) (.cons (decode_roundCase true rfl rfl rfl) .nil)))

theorem readsBack_roundCases : ∀ c ∈ roundCases, c.ReadsBack := by
  have htrue : (roundCase true).ReadsBack :=
    ⟨"B.f:(Z)V (true) -> ok", _, rfl, decode_roundCase true rfl rfl rfl, rfl⟩
  have hfalse : (roundCase false).ReadsBack :=
    ⟨"B.f:(Z)V (false) -> *", _, rfl, decode_roundCase false rfl rfl rfl, rfl⟩
  simp only [roundCases, List.forall_mem_cons]
  exact ⟨htrue, hfalse, htrue, List.forall_mem_nil _⟩

theorem isRight_roundCase_true (n : Nat) : roundBench.IsRight n (roundCase true) := by
  have hcall : roundBench.callFor (roundCase true) =
      .ok (["prog", "B.f:(Z)V", "(true)"], some Bench.seconds) := by decide +kernel
  have hanswer : (Reply.done "note\nok:27\n" ["warning"] 3).answer = .ok "ok" := rfl
  rw [Bench.IsRight, Bench.answerTo, hcall]
  exact hanswer

theorem isRight_roundCase_false (n : Nat) : roundBench.IsRight n (roundCase false) ↔ n = 0 := by
  have hcall : roundBench.callFor (roundCase false) =
      .ok (["prog", "B.f:(Z)V", "(false)"], some Bench.seconds) := by decide +kernel
  have hanswer : roundBench.answerTo n (roundCase false) =
      (if n = 0 then Reply.timedOut else .failed).answer := by
    rw [Bench.answerTo, hcall]
    rfl
  rw [Bench.IsRight, hanswer]
  split <;> simp [*, Reply.answer, roundCase]

/-- The first sitting stops at the second case, and the second one meets no wrong answer. -/
theorem round_taken_up :
    Case.decodeAll roundText = .ok roundCases ∧ (∀ c ∈ roundCases, c.ReadsBack) ∧
      (∀ b ∈ [roundBench, roundBench], b.Serves roundCases) ∧ IsResumable roundCases [] ∧
      (of roundBench []).StopsAt roundCases 1 (roundCase false) ∧
      (of roundBench (of roundBench []).desk.files).Completes roundCases ∧
      ∀ i c, roundCases[i]? = some c →
        Passed roundCases 0 (sequence [roundBench, roundBench] []) i c := by
  have hserves : ∀ b ∈ [roundBench, roundBench], b.Serves roundCases := by
    rintro b hb
    rcases List.mem_pair.1 hb with rfl | rfl <;> exact serves_roundBench
  have hfiles : IsResumable roundCases [] := .inl rfl
  obtain ⟨hpoint, hresumes, hpassed⟩ :=
    stepwise_takes_up_where_stopped decodeAll_roundText readsBack_roundCases hserves hfiles
  -- a wrong answer is one to the second case, not asked first
  have hwrong : ∀ {n i x}, roundCases[i]? = some x → ¬ roundBench.IsRight n x →
      i = 1 ∧ x = roundCase false ∧ n ≠ 0 := by
    intro n i x hx hnot
    match i, hx with
    | 0, hx => exact absurd (Option.some.inj hx ▸ isRight_roundCase_true n) hnot
    | 1, hx =>
      obtain rfl := Option.some.inj hx
      exact ⟨rfl, rfl, fun hn => hnot ((isRight_roundCase_false n).2 hn)⟩
    | 2, hx => exact absurd (Option.some.inj hx ▸ isRight_roundCase_true n) hnot
  have hstops : (of roundBench []).StopsAt roundCases 1 (roundCase false) := by
    rcases (hresumes _ List.mem_cons_self).ends with hall | ⟨i, x, hstop⟩
    · have hright : roundBench.IsRight 1 (roundCase false) :=
        hall.right 1 (roundCase false) (Nat.zero_le 1) rfl
      exact absurd ((isRight_roundCase_false 1).1 hright) Nat.one_ne_zero
    · obtain ⟨rfl, rfl, -⟩ := hwrong hstop.found hstop.wrong
      exact hstop
  have hcompletes : (of roundBench (of roundBench []).desk.files).Completes roundCases := by
    obtain ⟨line, hline, hfile⟩ := hstops.file
    have hfirst : resumePoint roundCases (of roundBench []).desk.files = 1 := by
      rw [hpoint (roundCase false) (List.mem_of_getElem? hstops.found) line _ hline hfile]
      rfl
    refine (hresumes _ (List.mem_cons_of_mem _ List.mem_cons_self)).ends.resolve_right ?_
    rintro ⟨i, x, hstop⟩
    obtain ⟨rfl, -, hlater⟩ := hwrong hstop.found hstop.wrong
    exact hlater (Nat.sub_eq_zero_of_le hfirst.ge)
  refine ⟨decodeAll_roundText, readsBack_roundCases, hserves, hfiles, hstops, hcompletes,
    fun i c hc => hpassed i c hc ?_⟩
  have hreached : reachedBy roundCases (resumePoint roundCases [])
      (sequence [roundBench, roundBench] []) = roundCases.length := by
    rw [sequence, sequence, sequence, reachedBy, reachedBy, reachedBy, reached, hcompletes.stop]
  rw [hreached]
  exact (List.getElem?_eq_some_iff.1 hc).1

end Sitting

end Console

end Assay
