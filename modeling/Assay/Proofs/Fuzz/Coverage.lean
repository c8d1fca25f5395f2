import Mathlib.Data.List.Chain
import Assay.Proofs.Fuzz.Session

/-!
# The corpus of a fuzzer only improves

Between any two fuzzers of a history the later corpus still has every depth of the earlier one, with
the same entry or a smaller one, and every other entry of it is an input whose run ends at its
depth.
-/

namespace Assay.Fuzz

abbrev Corpus := List (Int × Argument)

/-- The first input takes fewer bytes than the second. -/
def IsSmaller (a b : Argument) : Prop :=
  ∃ m n, size a.toDatum = .ok m ∧ size b.toDatum = .ok n ∧ m < n

theorem IsSmaller.trans {a b c : Argument} (hab : IsSmaller a b) (hbc : IsSmaller b c) :
    IsSmaller a c := by
  obtain ⟨l, m, hl, hm, hlm⟩ := hab
  obtain ⟨m', n, hm', hn, hmn⟩ := hbc
  obtain rfl := Except.ok.inj (hm.symm.trans hm')
  exact ⟨l, n, hl, hn, hlm.trans hmn⟩

theorem isSmaller_of_smaller {a b : Argument} (h : smaller a b = .ok true) : IsSmaller a b := by
  obtain ⟨m, hm, h⟩ := bind_eq_ok.1 h
  obtain ⟨n, hn, h⟩ := bind_eq_ok.1 h
  exact ⟨m, n, hm, hn, of_decide_eq_true (Except.ok.inj h)⟩

/-- The run of the input ends at the depth, and tells something about it. -/
def EndsAt (run : Runner) (off : Bool) (input : Argument) (depth : Int) : Prop :=
  ∃ out, ending run input off = .ok out ∧ out.depth = depth ∧
    out.message ≠ "assertion error" ∧ out.message ≠ "timeout"

theorem endsAt_of_ending {run : Runner} {off : Bool} {input : Argument} {out : Ending}
    (h : ending run input off = .ok out) (hconclusive : inconclusive out.message = false) :
    EndsAt run off input out.depth := by
  obtain ⟨hassert, htime⟩ : out.message ≠ "assertion error" ∧ out.message ≠ "timeout" := by
    simpa [inconclusive] using hconclusive
  exact ⟨out, h, rfl, hassert, htime⟩

/-- How a corpus becomes a later one. -/
structure Improves (run : Runner) (off : Bool) (c c' : Corpus) : Prop where
  keeps : ∀ d a, c.lookup d = some a → ∃ b, c'.lookup d = some b ∧ (b = a ∨ IsSmaller b a)
  sound : ∀ d b, c'.lookup d = some b → c.lookup d = some b ∨ EndsAt run off b d

namespace Improves

variable {run : Runner} {minDepth maxErrors : Int} {off : Bool} {c c' c'' : Corpus} {f g : Fuzzer}

theorem refl (c : Corpus) : Improves run off c c :=
  ⟨fun _ a h => ⟨a, h, .inl rfl⟩, fun _ _ h => .inl h⟩

theorem trans (h : Improves run off c c') (h' : Improves run off c' c'') :
    Improves run off c c'' := by
  constructor
  · intro d a ha
    obtain ⟨b, hb, hba⟩ := h.keeps d a ha
    obtain ⟨b', hb', hbb⟩ := h'.keeps d b hb
    refine ⟨b', hb', ?_⟩
    rcases hba with rfl | hba
    · exact hbb
    · rcases hbb with rfl | hbb
      · exact .inr hba
      · exact .inr (hbb.trans hba)
  · intro d b hb
    rcases h'.sound d b hb with hb' | hends
    · exact h.sound d b hb'
    · exact .inr hends

/-- An input may take the place of nothing, or of a larger input. -/
theorem insertAt {a : Argument} {d : Int} (hends : EndsAt run off a d)
    (hentry : ∀ b, c.lookup d = some b → IsSmaller a b) : Improves run off c (insertAt d a c) := by
  constructor
  · intro k b hb
    rw [lookup_insertAt]
    by_cases hk : k = d
    · subst hk
      exact ⟨a, by simp, .inr (hentry b hb)⟩
    · exact ⟨b, by simp [hk, hb], .inl rfl⟩
  · intro k b hb
    rw [lookup_insertAt] at hb
    by_cases hk : k = d
    · subst hk
      obtain rfl : a = b := by simpa using hb
      exact .inr hends
    · exact .inl (by simpa [hk] using hb)

theorem of_round {r : Except Fault Bool} (h : Round run minDepth maxErrors off f r g) :
    Improves run off f.corpus g.corpus := by
  cases h with
  | idle h =>
    rw [h.corpus]
    exact .refl _
  | shrink hends hconclusive hentry hsmaller hcorpus =>
    rw [hcorpus]
    refine .insertAt (endsAt_of_ending hends hconclusive) fun b hb => ?_
    obtain rfl := Option.some.inj (hentry.symm.trans hb)
    exact isSmaller_of_smaller hsmaller
  | discover _ hends hconclusive hnew h =>
    rw [h.corpus]
    refine .insertAt (endsAt_of_ending hends hconclusive) fun b hb => ?_
    rw [hnew] at hb
    cases hb

end Improves

theorem pairwise_improves (run : Runner) (minDepth maxErrors : Int) (off : Bool) (n : Nat)
    (f : Fuzzer) :
    (f :: history run minDepth maxErrors off n f).Pairwise fun g h =>
      Improves run off g.corpus h.corpus := by
  let R (g h : Fuzzer) : Prop := Improves run off g.corpus h.corpus
  have hchain := (isChain_history run minDepth maxErrors off n f).imp fun g h ⟨_, hround⟩ =>
    Improves.of_round hround
  have htrans : Trans R R R := ⟨Improves.trans⟩
  exact hchain.pairwise

/-- After every round each depth of the corpus is still there, with the same entry or a smaller one,
and the entry of each new depth is an input whose run ends there. -/
theorem fuzz_improves_corpus (run : Runner) (minDepth maxErrors : Int) (off : Bool) (f : Fuzzer) :
    (fuzz run minDepth maxErrors off).after f =
        (f :: history run minDepth maxErrors off f.rounds f).getLast (List.cons_ne_nil _ _) ∧
      (f :: history run minDepth maxErrors off f.rounds f).Pairwise
        (fun g h => ∀ d a, g.corpus.lookup d = some a →
        ∃ b, h.corpus.lookup d = some b ∧ (b = a ∨ IsSmaller b a)) ∧
      ∀ g ∈ history run minDepth maxErrors off f.rounds f, ∀ d a, g.corpus.lookup d = some a →
        f.corpus.lookup d = none → EndsAt run off a d := by
  have hpairs := pairwise_improves run minDepth maxErrors off f.rounds f
  refine ⟨after_fuzzFor run minDepth maxErrors off f.rounds f, hpairs.imp fun h => h.keeps, ?_⟩
  intro g hg d a ha hnew
  refine (((List.pairwise_cons.1 hpairs).1 g hg).sound d a ha).resolve_left ?_
  rw [hnew]
  nofun

end Assay.Fuzz
