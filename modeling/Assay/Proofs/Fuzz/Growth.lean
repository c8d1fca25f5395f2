import Mathlib.Algebra.Ring.Nat
import Assay.Proofs.Fuzz.WellFormed
import Assay.Proofs.Machine.Start

/-!
# Numbers grow too long

An entry of the corpus gives way to a smaller one only, yet a number in it may grow, as long as
arrays beside it get shorter by more. Where all runs end at one depth, each round can double a
number and take an element from an array. With enough elements at first, the number comes to have
too many digits, and then fuzzing ends with a fault.
-/

namespace Assay.Fuzz

/-! ### Draws that give a result -/

/-- Some draws make the computation succeed with this result, whatever draws come after them. -/
def CanGive {α : Type} (d : Draw α) (a : α) : Prop :=
  ∃ draws : List Int, ∀ (s : Source) (rest : List Int), s.script = draws ++ rest →
    ∃ s' : Source, d.run.run s = (.ok a, s') ∧ s'.script = rest

namespace CanGive

variable {α β : Type}

theorem pure (a : α) : CanGive (pure a : Draw α) a := ⟨[], fun s _ h => ⟨s, rfl, h⟩⟩

theorem bind {d : Draw α} {k : α → Draw β} {a : α} {b : β} (hd : CanGive d a)
    (hk : CanGive (k a) b) : CanGive (d >>= k) b := by
  obtain ⟨draws, hdraws⟩ := hd
  obtain ⟨draws', hdraws'⟩ := hk
  refine ⟨draws ++ draws', fun s rest hs => ?_⟩
  obtain ⟨s', hrun, hs'⟩ := hdraws s (draws' ++ rest) (by rw [hs, List.append_assoc])
  obtain ⟨s'', hrun', hs''⟩ := hdraws' s' rest hs'
  refine ⟨s'', ?_, hs''⟩
  rw [ExceptT.run_bind, StateT.run_bind, hrun]
  exact hrun'

theorem map {d : Draw α} {a : α} (f : α → β) (hd : CanGive d a) : CanGive (f <$> d) (f a) := by
  rw [map_eq_pure_bind]
  exact hd.bind (.pure (f a))

theorem liftM {r : Except Fault α} {a : α} (h : r = .ok a) : CanGive (liftM r : Draw α) a := by
  subst h
  exact ⟨[], fun s _ hs => ⟨s, rfl, hs⟩⟩

theorem below {n k : Nat} (h : k < n) : CanGive (Draw.below n) k := by
  refine ⟨[(k : Int)], fun s rest hs => ⟨{ s with script := rest, taken := s.taken + 1 }, ?_, rfl⟩⟩
  have hnext : s.next = ((k : Int), { s with script := rest, taken := s.taken + 1 }) := by
    rw [Source.next, hs]
    rfl
  have hk : ((k : Int) % (n : Int)).toNat = k := by
    rw [Int.emod_eq_of_lt (by omega) (by omega), Int.toNat_natCast]
  calc (Draw.below n).run.run s
    _ = (.ok (s.next.1 % n).toNat, s.next.2) := rfl
    _ = _ := by rw [hnext, hk]

theorem between {lo hi n : Int} (hlo : lo ≤ n) (hhi : n ≤ hi) : CanGive (Draw.between lo hi) n := by
  obtain ⟨k, rfl⟩ := Int.le.dest hlo
  exact (below (n := (hi - lo + 1).toNat) (k := k) (by omega)).bind (.pure _)

theorem coin (b : Bool) : CanGive Draw.coin b := by
  cases b with
  | true => exact (below (n := 2) (k := 0) (by decide)).bind (.pure _)
  | false => exact (below (n := 2) (k := 1) (by decide)).bind (.pure _)

theorem first (x : α) (xs : List α) : CanGive (Draw.oneOf x xs) x :=
  (below (Nat.succ_pos xs.length)).bind (.pure _)

end CanGive

/-! ### A number beside arrays -/

/-- An array of ones. -/
def ones (k : Nat) : Datum := .list (.str "I" :: (List.replicate k (1 : Int)).map .int)

/-- An input of a number and arrays of ones of these lengths. -/
def grown (n : Nat) (ks : List Nat) : Argument := .ofDatum (.list (.int n :: ks.map ones))

/-- Parameters for such an input. -/
def growShapes (m : Nat) : List Shape := .number .int :: List.replicate m .numbers

theorem ofData_ones (k : Nat) : Argument.ofData ((List.replicate k (1 : Int)).map .int) =
    List.replicate k (.plain (.int 1)) := by
  induction k with
  | zero => rfl
  | succ k ih => exact congrArg (Argument.plain (.int 1) :: ·) ih

theorem ofDatum_ones (k : Nat) : Argument.ofDatum (ones k) =
    .list 0 (.plain (.str "I") :: List.replicate k (.plain (.int 1))) := by
  rw [← ofData_ones]
  rfl

theorem fits_ones (k : Nat) : Fits .numbers (.ofDatum (ones k)) := by
  rw [ofDatum_ones]
  refine .numbers 0 fun a ha => ?_
  rw [List.eq_of_mem_replicate ha]
  exact .mk 1

theorem fitsAll_grown (n : Nat) (ks : List Nat) : FitsAll (growShapes ks.length) (grown n ks) := by
  refine .list 0 (.cons (.number .int (.mk n)) ?_)
  induction ks with
  | nil => exact .nil
  | cons k ks ih => exact .cons (fits_ones k) ih

theorem isWritable_one : Text.isWritable 1 = true := Text.isWritable_iff.2 (by decide)

theorem isWritable_grown (n : Nat) (ks : List Nat) :
    (grown n ks).toDatum.isWritable = Text.isWritable n := by
  have hones : Datum.areWritable (ks.map ones) = true := by
    induction ks with
    | nil => rfl
    | cons k ks ih =>
      have hk : (ones k).isWritable = true := by
        refine (Datum.areWritable_map_int _).2 fun n hn => ?_
        rw [List.eq_of_mem_replicate hn]
        exact isWritable_one
      rw [List.map_cons, Datum.areWritable, hk, ih]
      rfl
  rw [grown, toDatum_ofDatum, Datum.isWritable, Datum.areWritable, hones, Bool.and_true]
  rfl

/-! ### Sizes -/

theorem memberSize_int {n : Int} (h : Text.isWritable n = true) :
    memberSize (.int n) = .ok (toString n).length := by
  rw [memberSize, plainSize, if_pos h]
  nofun

theorem memberSizes_ones (k : Nat) :
    memberSizes ((List.replicate k (1 : Int)).map .int) = .ok k := by
  induction k with
  | zero => rfl
  | succ k ih =>
    have hone : memberSize (.int 1) = .ok 1 := memberSize_int isWritable_one
    rw [List.replicate_succ, List.map_cons, memberSizes, hone, ok_bind, ih, Nat.add_comm k]
    rfl

theorem memberSize_ones (k : Nat) : memberSize (ones k) = .ok (2 * k + 3) := by
  have hmembers : memberSizes (.str "I" :: (List.replicate k (1 : Int)).map .int) =
      .ok (1 + k) := by
    rw [memberSizes, memberSizes_ones]
    rfl
  have hsize : 2 + (1 + k) + (k + 1 - 1) = 2 * k + 3 := by omega
  rw [ones, memberSize, List.head?_cons]
  simp only [typeLength, ok_bind, hmembers]
  rw [if_neg (by decide), List.length_cons, List.length_map, List.length_replicate, ← hsize]
  rfl

theorem memberSizes_arrays (ks : List Nat) :
    memberSizes (ks.map ones) = .ok (2 * ks.sum + 3 * ks.length) := by
  induction ks with
  | nil => rfl
  | cons k ks ih =>
    rw [List.map_cons, memberSizes, memberSize_ones, ok_bind, ih, ok_bind, List.sum_cons,
      List.length_cons]
    exact congrArg Except.ok (by omega)

theorem size_grown {n : Nat} (hn : Text.isWritable n = true) (ks : List Nat) :
    size (grown n ks).toDatum =
      .ok ((toString (n : Int)).length + 2 * ks.sum + 4 * ks.length + 2) := by
  rw [grown, toDatum_ofDatum, size, memberSizes, memberSize_int hn, ok_bind, memberSizes_arrays]
  simp only [ok_bind, List.length_cons, List.length_map]
  exact congrArg Except.ok (by omega)

theorem length_toString_double (n : Nat) :
    (toString ((n * 2 : Nat) : Int)).length ≤ (toString (n : Int)).length + 1 := by
  have hlength : ∀ m : Nat, (toString (m : Int)).length = (Nat.toDigits 10 m).length := by
    intro m
    rw [← String.length_toList, Text.toList_toString_int, if_neg (by omega), List.nil_append,
      Int.natAbs_natCast]
  rw [hlength, hlength, Text.length_toDigits_le (Nat.succ_pos _)]
  have hn : n < 10 ^ (Nat.toDigits 10 n).length :=
    (Text.length_toDigits_le Nat.length_toDigits_pos n).1 le_rfl
  calc n * 2 < 10 ^ (Nat.toDigits 10 n).length * 10 := by omega
    _ = _ := (Nat.pow_succ ..).symm

/-- An element less outweighs one more digit. -/
theorem smaller_grown {n : Nat} {ks ls : List Nat} (hn : Text.isWritable n = true)
    (hdouble : Text.isWritable (n * 2 : Nat) = true) (hsum : ls.sum + 1 = ks.sum)
    (hlength : ls.length = ks.length) : smaller (grown (n * 2) ls) (grown n ks) = .ok true := by
  rw [smaller, size_grown hn, size_grown hdouble]
  have hdigits := length_toString_double n
  exact congrArg Except.ok (decide_eq_true (by omega))

/-! ### Mutations -/

theorem canGive_keep (k : Nat) :
    CanGive (mutateArgument upset (.ofDatum (ones k))) (.ofDatum (ones k)) := by
  rw [ofDatum_ones, mutateArgument]
  refine (CanGive.liftM (a := 1) rfl).bind ?_
  rw [if_neg (by decide)]
  exact (CanGive.coin false).bind (.pure _)

theorem canGive_drop (k : Nat) :
    CanGive (mutateArgument upset (.ofDatum (ones (k + 1)))) (.ofDatum (ones k)) := by
  rw [ofDatum_ones, ofDatum_ones, mutateArgument]
  refine (CanGive.liftM (a := 1) rfl).bind ?_
  rw [if_neg (by decide)]
  refine (CanGive.coin true).bind ?_
  rw [if_pos rfl, upset]
  refine (CanGive.below (k := 1) (by decide)).bind ?_
  rw [List.dropLast_replicate, Nat.add_sub_cancel]
  exact .pure _

theorem canGive_double (n : Nat) :
    CanGive (mutateArgument upset (.plain (.int n))) (.plain (.int (n * 2 : Nat))) := by
  rw [mutateArgument]
  · refine (CanGive.coin true).bind ?_
    rw [if_pos rfl, upset, upsetPlain]
    · exact .map _ ((CanGive.below (k := 1) (by decide)).bind (.liftM (by simp [double])))
    · rintro s ⟨⟩
    · rintro b ⟨⟩
  · rintro k ⟨⟩
  · rintro k a as ⟨⟩

theorem canGive_keepAll (ks : List Nat) :
    CanGive (eachOf (mutateArgument upset) (Argument.ofData (ks.map ones)))
      (Argument.ofData (ks.map ones)) := by
  induction ks with
  | nil => exact .pure []
  | cons k ks ih => exact (canGive_keep k).bind (ih.bind (.pure _))

/-- One of the arrays can lose an element. -/
theorem canGive_shrink {ks : List Nat} (h : 0 < ks.sum) :
    ∃ ls : List Nat, ls.sum + 1 = ks.sum ∧ ls.length = ks.length ∧
      CanGive (eachOf (mutateArgument upset) (Argument.ofData (ks.map ones)))
        (Argument.ofData (ls.map ones)) := by
  -- the first array that has an element loses one, all others are kept
  induction ks with
  | nil => exact absurd h (by simp)
  | cons k ks ih =>
    cases k with
    | zero =>
      rw [List.sum_cons, Nat.zero_add] at h
      obtain ⟨ls, hsum, hlength, hgives⟩ := ih h
      refine ⟨0 :: ls, by simpa using hsum, by simpa using hlength, ?_⟩
      exact (canGive_keep 0).bind (hgives.bind (.pure _))
    | succ k =>
      refine ⟨k :: ks, by simp only [List.sum_cons]; omega, rfl, ?_⟩
      exact (canGive_drop k).bind ((canGive_keepAll ks).bind (.pure _))

/-- The number can be doubled while one of the arrays loses an element. -/
theorem canGive_mutate (n : Nat) {ks : List Nat} (h : 0 < ks.sum) :
    ∃ ls : List Nat, ls.sum + 1 = ks.sum ∧ ls.length = ks.length ∧
      CanGive (mutate (grown n ks)) (grown (n * 2) ls) := by
  obtain ⟨ls, hsum, hlength, hgives⟩ := canGive_shrink h
  refine ⟨ls, hsum, hlength, ?_⟩
  have hmutation : CanGive mutation upset := (CanGive.coin true).bind (.pure _)
  have hargs : CanGive
      (eachOf (mutateArgument upset) (.plain (.int n) :: Argument.ofData (ks.map ones)))
      (.plain (.int (n * 2 : Nat)) :: Argument.ofData (ls.map ones)) :=
    (canGive_double n).bind (hgives.bind (.pure _))
  exact hmutation.bind (hargs.bind (.pure _))

/-! ### Rounds -/

/-- Draws that mutate the only entry of a corpus in a given way. -/
theorem exists_draws_mutant {a b : Argument} (h : CanGive (mutate a) b) :
    ∃ draws : List Int, ∀ (f : Fuzzer) (rest : List Int), f.corpus = [(0, a)] →
      f.source.script = draws ++ rest →
        ∃ source : Source, source.script = rest ∧ mutant.result f = .ok b ∧
          mutant.after f = { f with source := source } := by
  obtain ⟨draws, hdraws⟩ := (CanGive.first a []).bind h
  refine ⟨draws, fun f rest hcorpus hscript => ?_⟩
  obtain ⟨source, hrun, hrest⟩ := hdraws f.source rest hscript
  have hmutant : mutant.run.run f =
      (Session.draw (Draw.oneOf a [] >>= mutate)).run.run f := by
    rw [mutant, Session.run_bind, Session.draw_bind]
    have hget : (get : Session Fuzzer).run.run f = (.ok f, f) := rfl
    rw [hget]
    simp only [hcorpus, List.map_nil]
  refine ⟨source, hrest, ?_, ?_⟩
  · rw [Session.result, hmutant]
    exact congrArg Prod.fst hrun
  · rw [Session.after, hmutant]
    exact congrArg (fun r => { f with source := r.2 }) hrun

section Rounds

variable (run : Runner) (minDepth maxErrors : Int) (off : Bool) {a b : Argument} {f : Fuzzer}
  {source : Source}

/-- A smaller input that ends at the same depth takes the place of the only entry. -/
theorem fuzzOnce_shrink (hcorpus : f.corpus = [(0, a)]) (hmutant : mutant.result f = .ok b)
    (hafter : mutant.after f = { f with source := source }) {out : Ending}
    (hends : ending run b off = .ok out) (hdepth : out.depth = 0)
    (hconclusive : inconclusive out.message = false) (hsmaller : smaller b a = .ok true) :
    (fuzzOnce run minDepth maxErrors off).result f = .ok false ∧
      ((fuzzOnce run minDepth maxErrors off).after f).corpus = [(0, b)] ∧
      ((fuzzOnce run minDepth maxErrors off).after f).source = source := by
  have hout := (result_execute run b off (mutant.after f)).trans hends
  have hentry : f.corpus.lookup out.depth = some a := by
    rw [hcorpus, hdepth]
    rfl
  have hinsert : insertAt out.depth b f.corpus = [(0, b)] := by
    rw [hcorpus, hdepth]
    rfl
  rw [fuzzOnce, Session.result_bind_ok hmutant, Session.after_bind_ok hmutant,
    Session.result_bind_ok hout, Session.after_bind_ok hout, after_execute, hafter, hconclusive,
    if_neg Bool.false_ne_true, Session.result_bind_ok Session.result_get,
    Session.after_bind_ok Session.result_get, Session.after_get]
  simp only [hentry, hsmaller]
  exact ⟨rfl, hinsert, rfl⟩

/-- Fuzzing ends with an input that has no text. -/
theorem fuzzOnce_tooLong (hmutant : mutant.result f = .ok b)
    (hlong : inputText b.toDatum = .error Text.tooLong) :
    (fuzzOnce run minDepth maxErrors off).result f = .error Text.tooLong ∧
      (b, .error Text.tooLong) ∈ ((fuzzOnce run minDepth maxErrors off).after f).tried := by
  have hout : (execute run b off).result (mutant.after f) = .error Text.tooLong := by
    rw [result_execute, ending, hlong]
    rfl
  rw [fuzzOnce, Session.result_bind_ok hmutant, Session.after_bind_ok hmutant,
    Session.result_bind_error hout, Session.after_bind_error hout, after_execute, hlong]
  exact ⟨rfl, List.mem_cons_self ..⟩

end Rounds

/-- All inputs of these shapes end at the start of the code, with a message that tells this. -/
def EndsAtStart (run : Runner) (off : Bool) (shapes : List Shape) : Prop :=
  ∀ input text, WellFormed shapes input text →
    ∃ out, run text off = .ok out ∧ out.depth = 0 ∧ inconclusive out.message = false

/-- With an element for each round, the number can be doubled in each round, until it is too
long. -/
theorem exists_draws_tooLong {run : Runner} {off : Bool} {m : Nat}
    (hrun : EndsAtStart run off (growShapes m)) (minDepth maxErrors : Int) (r : Nat) {n : Nat}
    {ks : List Nat} (hm : ks.length = m) (hr : r ≤ ks.sum) (hn : Text.isWritable n = true)
    (hlong : Text.isWritable (n * 2 ^ r : Nat) = false) :
    ∃ draws : List Int, ∀ f : Fuzzer, f.corpus = [(0, grown n ks)] → f.source.script = draws →
      (fuzzFor run minDepth maxErrors off r).result f = .error Text.tooLong ∧
        ∃ input, (input, .error Text.tooLong) ∈
          ((fuzzFor run minDepth maxErrors off r).after f).tried := by
  -- each round leaves the corpus with one entry of the same form, so the draws of the rounds are
  -- put one after the other; the round that makes the number too long is the last one
  induction r generalizing n ks with
  | zero =>
    rw [Nat.pow_zero, Nat.mul_one, hn] at hlong
    exact Bool.noConfusion hlong
  | succ r ih =>
    have hks : 0 < ks.sum := by omega
    obtain ⟨ls, hsum, hlength, hgives⟩ := canGive_mutate n hks
    obtain ⟨draws, hdraws⟩ := exists_draws_mutant hgives
    have hfits : FitsAll (growShapes m) (grown (n * 2) ls) := by
      rw [← hm, ← hlength]
      exact fitsAll_grown (n * 2) ls
    cases hdouble : Text.isWritable (n * 2 : Nat) with
    | false =>
      refine ⟨draws, fun f hcorpus hscript => ?_⟩
      obtain ⟨source, -, hmutant, -⟩ := hdraws f [] hcorpus (by rw [hscript, List.append_nil])
      have htext := hfits.inputText_long ((isWritable_grown _ ls).trans hdouble)
      obtain ⟨hresult, htried⟩ :=
        fuzzOnce_tooLong run minDepth maxErrors off hmutant htext
      rw [fuzzFor, Session.result_bind_error hresult, Session.after_bind_error hresult]
      exact ⟨rfl, _, htried⟩
    | true =>
      have hpow : n * 2 ^ (r + 1) = n * 2 * 2 ^ r := by
        rw [Nat.pow_succ', Nat.mul_assoc]
      rw [hpow] at hlong
      obtain ⟨draws', hdraws'⟩ := ih (hlength.trans hm) (by omega) hdouble hlong
      refine ⟨draws ++ draws', fun f hcorpus hscript => ?_⟩
      obtain ⟨source, hsource, hmutant, hafter⟩ := hdraws f draws' hcorpus hscript
      obtain ⟨text, htext⟩ := hfits.exists_text ((isWritable_grown _ ls).trans hdouble)
      obtain ⟨out, hout, hdepth, hconclusive⟩ := hrun _ text htext
      have hends : ending run (grown (n * 2) ls) off = .ok out := by
        rw [ending, htext.written]
        exact hout
      obtain ⟨hresult, hcorpus', hsource'⟩ := fuzzOnce_shrink run minDepth maxErrors off hcorpus
        hmutant hafter hends hdepth hconclusive (smaller_grown hn hdouble hsum hlength)
      rw [fuzzFor, Session.result_bind_ok hresult, Session.after_bind_ok hresult]
      exact hdraws' _ hcorpus' (by rw [hsource', hsource])

/-! ### Random arrays of ones -/

theorem canGive_ones (k : Nat) :
    CanGive (randomValues "I" k) ((List.replicate k (1 : Int)).map .int) := by
  induction k with
  | zero => exact .pure []
  | succ k ih =>
    have hone : CanGive (randomValue "I") (.int 1) :=
      .map _ (.between (by decide) (by decide))
    exact hone.bind (ih.bind (.pure _))

theorem canGive_randomInput {k : Nat} (hk : k ≤ 50) (m : Nat) :
    CanGive (randomInput ((growShapes m).map Shape.parameter))
      (.int 1 :: (List.replicate m k).map ones) := by
  have hnumber : CanGive (randomArgument (Shape.number .int).parameter) (.int 1) :=
    .map _ (.between (by decide) (by decide))
  have harray : CanGive (randomArgument Shape.numbers.parameter) (ones k) :=
    (CanGive.below (Nat.lt_succ_of_le hk)).bind ((canGive_ones k).bind (.pure _))
  have harrays : CanGive (randomInput ((List.replicate m Shape.numbers).map Shape.parameter))
      ((List.replicate m k).map ones) := by
    induction m with
    | zero => exact .pure []
    | succ m ih => exact harray.bind (ih.bind (.pure _))
  exact hnumber.bind (harrays.bind (.pure _))

/-! ### A method that returns at once -/

section Returns

open Machine

/-- The code of a method that returns at once. -/
def returnCode : List Instr := [⟨.null, .ret none⟩]

theorem interpret_returnCode {id : MethodId} (hid : id.IsPlain) {text : String} {input : Input}
    (htext : Input.decode text = .ok input) (off : Bool) :
    ∃ out, interpret (single id returnCode) id.encode text off = .ok out ∧ out.depth = 0 ∧
      inconclusive out.message = false := by
  simp only [interpret, hid.decode_encode, htext, ok_bind, pure_eq_ok]
  cases hstart : start (single id returnCode) off id input text with
  | error e => exact ⟨genericError, rfl, rfl, by decide⟩
  | ok s =>
    obtain ⟨p, hp, rfl, hw⟩ := start_eq_ok.1 hstart
    have hplace : p.frame.place = ⟨id, 0⟩ := place_addInputs hp rfl
    have hstep : step (single id returnCode) off ⟨p.heap, p.frame, []⟩ =
        .ok (.ended ⟨"ok", 0⟩) := by
      refine (step_single (i := ⟨.null, .ret none⟩) 0 hplace rfl (by rintro a ⟨⟩) hw rfl).trans ?_
      rw [stop, hplace]
    refine ⟨⟨"ok", 0⟩, ?_, rfl, by decide⟩
    change Machine.run (single id returnCode) off (9999 + 1) _ = _
    rw [Machine.run, hstep]
    rfl

end Returns

section Grow

/-- Takes a number and arrays. -/
def growId (m : Nat) : MethodId :=
  ⟨⟨"math.Grow"⟩, "keep", .int :: List.replicate m (.array .int), none⟩

theorem isPlain_growId (m : Nat) : (growId m).IsPlain where
  owner_ne := (by decide : "math.Grow" ≠ "")
  owner := by simp [growId]
  name := by simp [growId]
  params := by
    refine List.forall_mem_cons.2 ⟨rfl, fun t ht => ?_⟩
    rw [List.eq_of_mem_replicate ht]
    rfl
  ret := nofun

theorem toList_encode_growId (m : Nat) : (growId m).encode.toList =
    "math.Grow.keep:".toList ++
      '(' :: ((growShapes m).flatMap Shape.descriptor ++ ')' :: "V".toList) := by
  have htypes : (Ty.encodeAll (List.replicate m (.array .int))).toList =
      (List.replicate m Shape.numbers).flatMap Shape.descriptor := by
    induction m with
    | zero => rfl
    | succ m ih =>
      rw [List.replicate_succ, List.replicate_succ, Ty.toList_encodeAll_cons, ih]
      rfl
  have hfront : "math.Grow.keep:".toList =
      "math.Grow".toList ++ '.' :: ("keep".toList ++ [':']) := by decide
  have hint : Ty.int.encode.toList = (Shape.number .int).descriptor := by decide
  rw [MethodId.IsPlain.toList_encode, Signature.toList_encode, growId, Ty.toList_encodeAll_cons,
    htypes, hfront, hint, growShapes, List.flatMap_cons]
  simp [Signature.returnText]

/-- Runs of the method that only returns. -/
def growRunner (m : Nat) : Runner :=
  Machine.interpret (Machine.single (growId m) returnCode) (growId m).encode

theorem endsAtStart_growRunner (m : Nat) (off : Bool) :
    EndsAtStart (growRunner m) off (growShapes m) := by
  intro input text htext
  obtain ⟨values, hvalues, -⟩ := htext.decodes
  exact interpret_returnCode (isPlain_growId m) hvalues off

theorem ofMethod_growId (m : Nat) :
    Parameter.ofMethod (growId m).encode = .ok ((growShapes m).map Shape.parameter) := by
  refine ofMethod_descriptors (toList_encode_growId m) (by decide) ?_
  rw [List.mem_append, List.mem_cons]
  exact not_or.2 ⟨by decide, not_or.2 ⟨by decide, not_mem_descriptors (growShapes m)⟩⟩

theorem writeBound_le {r : Nat} (h : 14300 ≤ r) : Text.writeBound ≤ 2 ^ r := by
  obtain ⟨k, hdigits, hr⟩ : ∃ k, Text.maxDigits ≤ 43 * k ∧ 143 * k ≤ r := ⟨100, by decide, h⟩
  have hbase : 10 ^ 43 ≤ 2 ^ 143 := by decide
  unfold Text.writeBound
  generalize Text.maxDigits = d at hdigits
  calc 10 ^ d ≤ 10 ^ (43 * k) := Nat.pow_le_pow_right (by decide) hdigits
    _ = (10 ^ 43) ^ k := Nat.pow_mul 10 43 k
    _ ≤ (2 ^ 143) ^ k := Nat.pow_le_pow_left hbase k
    _ = 2 ^ (143 * k) := (Nat.pow_mul 2 143 k).symm
    _ ≤ 2 ^ r := Nat.pow_le_pow_right (by decide) hr

/-- With an element for each round, and rounds for more than 4300 digits, fuzzing can go on until
the number is too long. The input with that number has an argument for each parameter, but no
text. -/
theorem exists_source_tooLong {m k rounds : Nat} (hk : k ≤ 50) (hrounds : rounds ≤ m * k)
    (hlong : 14300 ≤ rounds) (minDepth maxErrors : Int) (off : Bool) :
    ∃ (source : Source) (f : Fuzzer),
      build (growId m).encode none none rounds source = ([], .ok f) ∧
      f.params = (growShapes m).map Shape.parameter ∧
      (fuzz (growRunner m) minDepth maxErrors off).result f = .error Text.tooLong ∧
      ∃ input, FitsAll (growShapes m) input ∧ inputText input.toDatum = .error Text.tooLong ∧
        (input, inputText input.toDatum) ∈
          ((fuzz (growRunner m) minDepth maxErrors off).after f).tried := by
  have hsum : rounds ≤ (List.replicate m k).sum := by
    rw [List.sum_replicate_nat]
    exact hrounds
  have hpow : Text.isWritable (1 * 2 ^ rounds : Nat) = false := by
    rw [Nat.one_mul]
    exact Text.isWritable_eq_false (writeBound_le hlong)
  obtain ⟨draws, hdraws⟩ := canGive_randomInput hk m
  obtain ⟨draws', hdraws'⟩ := exists_draws_tooLong (endsAtStart_growRunner m off) minDepth
    maxErrors rounds List.length_replicate hsum isWritable_one hpow
  let source : Source := ⟨draws ++ draws', 0, 0⟩
  obtain ⟨s, hdrawn, hs⟩ := hdraws source draws' rfl
  have hbuild := build_drawn (ofMethod_growId m) hdrawn rounds
  obtain ⟨f, hf, hparams, hfuzzed, -, hsound⟩ := build_random (ofMethod_growId m) rounds source
  have heq := Except.ok.inj (congrArg Prod.snd (hf.symm.trans hbuild))
  obtain ⟨hresult, input, htried⟩ := hdraws' f (by rw [heq]; rfl) (by rw [heq]; exact hs)
  rw [← hfuzzed] at hresult htried
  refine ⟨source, f, hf, hparams, hresult, input, ?_⟩
  cases (safe_fuzz (growRunner m) minDepth maxErrors off f hsound).sound.tried _ htried with
  | tooLong hfits hw =>
    rw [hfits.inputText_long hw]
    exact ⟨hfits, rfl, htried⟩

/-- The random arrays of 286 parameters have elements for 14300 rounds, and so many doublings take
one to a number of more than 4300 digits. -/
theorem fuzz_reaches_long_number :
    ∃ (source : Source) (f : Fuzzer),
      build (growId 286).encode none none 14300 source = ([], .ok f) ∧
      f.params = (growShapes 286).map Shape.parameter ∧
      (fuzz (growRunner 286) 1 1 true).result f = .error Text.tooLong ∧
      ∃ input, FitsAll (growShapes 286) input ∧ inputText input.toDatum = .error Text.tooLong ∧
        (input, inputText input.toDatum) ∈ ((fuzz (growRunner 286) 1 1 true).after f).tried :=
  exists_source_tooLong (k := 50) le_rfl (by decide) le_rfl 1 1 true

end Grow

end Assay.Fuzz
