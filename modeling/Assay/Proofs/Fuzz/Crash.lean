import Mathlib.Data.List.Chain
import Assay.Proofs.Fuzz.Session

/-!
# Every reported crash is unprotected

A round appends at most one report, and only for a mutant that crashes at a new depth with
assertions enabled or not. So each report of a history has the two neighbours in it between which it
was made, and the rounds stop as soon as there are enough of them.
-/

namespace Assay.Fuzz

/-- A round appended the report, for a mutant that crashed at a new depth. -/
structure Reports (run : Runner) (minDepth : Int) (off : Bool) (f g : Fuzzer)
    (report : List Suspect) : Prop where
  crashes : g.crashes = f.crashes ++ [report]
  crash : ∃ candidate out, mutant.result f = .ok candidate ∧
    IsCrash run minDepth off candidate out ∧
    f.corpus.lookup out.depth = none ∧ List.Forall₂ Describes (arguments candidate) report

namespace Round

variable {run : Runner} {minDepth maxErrors : Int} {off : Bool} {f g : Fuzzer}
  {r : Except Fault Bool}

theorem reports (h : Round run minDepth maxErrors off f r g) :
    g.crashes = f.crashes ∨ ∃ report, Reports run minDepth off f g report := by
  cases h with
  | idle h => exact .inl h.crashes
  | shrink _ _ _ _ _ hcrashes => exact .inl hcrashes
  | discover hmutant hends hconclusive hnew h hgoesOn =>
    rcases h.crashes with hcrashes | ⟨report, hcrashes, hcrash, hdescribes⟩
    · exact .inl hcrashes
    · exact .inr ⟨report, hcrashes, _, _, hmutant, hcrash, hnew, hdescribes⟩

theorem length_crashes_le (h : Round run minDepth maxErrors off f r g) :
    g.crashes.length ≤ f.crashes.length + 1 := by
  rcases h.reports with hcrashes | ⟨report, hreports⟩
  · simp [hcrashes]
  · simp [hreports.crashes]

/-- The rounds go on only while more reports are wanted. -/
theorem length_crashes_lt (h : Round run minDepth maxErrors off f (.ok false) g)
    (hf : f.crashes.length < maxErrors) : g.crashes.length < maxErrors := by
  cases h with
  | idle h => rwa [h.crashes]
  | shrink _ _ _ _ _ hcrashes => rwa [hcrashes]
  | discover _ _ _ _ _ hgoesOn => exact hgoesOn rfl

end Round

section History

variable (run : Runner) (minDepth maxErrors : Int) (off : Bool)

theorem length_crashes_history (n : Nat) (f : Fuzzer) (hf : f.crashes.length < maxErrors) :
    ∀ g ∈ f :: history run minDepth maxErrors off n f, g.crashes.length ≤ maxErrors := by
  induction n generalizing f with
  | zero =>
    intro g hg
    obtain rfl := List.mem_singleton.1 hg
    exact Int.le_of_lt hf
  | succ n ih =>
    have hround := round_fuzzOnce run minDepth maxErrors off f
    rw [history, List.forall_mem_cons]
    refine ⟨Int.le_of_lt hf, ?_⟩
    split
    next hr =>
      rw [hr] at hround
      exact ih _ (hround.length_crashes_lt hf)
    next =>
      have hle := hround.length_crashes_le
      intro g hg
      obtain rfl := List.mem_singleton.1 hg
      omega

/-- A report at the end of a chain of rounds was there at its start, or one of the rounds appended
it. -/
theorem mem_crashes_getLast {report : List Suspect} (f : Fuzzer) (l : List Fuzzer)
    (hchain : (f :: l).IsChain fun g h => ∃ r, Round run minDepth maxErrors off g r h)
    (hreport : report ∈ ((f :: l).getLast (List.cons_ne_nil f l)).crashes) :
    report ∈ f.crashes ∨ ∃ g h, [g, h] <:+: f :: l ∧ Reports run minDepth off g h report := by
  induction l generalizing f with
  | nil => exact .inl hreport
  | cons g l ih =>
    obtain ⟨⟨r, hround⟩, hchain⟩ := List.isChain_cons_cons.1 hchain
    rw [List.getLast_cons_cons] at hreport
    rcases ih g hchain hreport with hg | ⟨g', h', hinfix, hreports⟩
    · rcases hround.reports with hcrashes | ⟨last, hreports⟩
      · rw [hcrashes] at hg
        exact .inl hg
      · rw [hreports.crashes, List.mem_append, List.mem_singleton] at hg
        rcases hg with hf | rfl
        · exact .inl hf
        · exact .inr ⟨f, g, (List.prefix_append [f, g] l).isInfix, hreports⟩
    · exact .inr ⟨g', h', hinfix.trans (List.suffix_cons f _).isInfix, hreports⟩

end History

/-- Fuzzing with assertions disabled reports at most as many crashes as are wanted. Between two
rounds of its history each report was made, for a mutant that fails at a new depth of at least
`minDepth`, and at the same depth with assertions enabled; it describes the arguments of that mutant
in their order. -/
theorem fuzz_reports_unprotected (run : Runner) (minDepth maxErrors : Int) (f : Fuzzer)
    (hmax : 1 ≤ maxErrors) (hstart : f.crashes = []) :
    ((fuzz run minDepth maxErrors true).after f).crashes.length ≤ maxErrors ∧
      ∀ report ∈ ((fuzz run minDepth maxErrors true).after f).crashes,
        ∃ g h, [g, h] <:+: f :: history run minDepth maxErrors true f.rounds f ∧
          h.crashes = g.crashes ++ [report] ∧ ∃ candidate out, mutant.result g = .ok candidate ∧
            IsCrash run minDepth true candidate out ∧ g.corpus.lookup out.depth = none ∧
            List.Forall₂ Describes (arguments candidate) report := by
  have hafter : (fuzz run minDepth maxErrors true).after f = _ :=
    after_fuzzFor run minDepth maxErrors true f.rounds f
  have hfew : (f.crashes.length : Int) < maxErrors := by
    rw [hstart]
    exact hmax
  rw [hafter]
  have hlength := length_crashes_history run minDepth maxErrors true f.rounds f hfew
  refine ⟨hlength _ (List.getLast_mem _), ?_⟩
  intro report hreport
  have hchain := isChain_history run minDepth maxErrors true f.rounds f
  rcases mem_crashes_getLast run minDepth maxErrors true f _ hchain hreport with hf |
    ⟨g, h, hinfix, hreports⟩
  · rw [hstart] at hf
    cases hf
  · exact ⟨g, h, hinfix, hreports.crashes, hreports.crash⟩

section Divisor

/-- Fails for one input only, whether assertions are enabled or not. -/
def divisorRun : Runner := fun text _ =>
  .ok (if text = "(20,[I:3])" then ⟨"divide by zero", 3⟩ else ⟨"ok", 7⟩)

/-- Its first round doubles the number and keeps the array. -/
def divisorStart : Fuzzer where
  params := [.plain "I", .plain "[I"]
  corpus := [(0, .list 0 [.plain (.int 10), .list 1 [.plain (.str "I"), .plain (.int 3)]])]
  rounds := 1
  crashes := []
  failures := []
  printed := []
  source := ⟨[0, 0, 0, 1, 1, 0, 0, 1, 1, 0, 0, 1, 1], 0, 0⟩

/-- What a report says of the arguments. -/
def said (report : List Suspect) : List (String × Bool × Bool) :=
  report.map fun suspect => (suspect.value.text, suspect.faulty, suspect.isObject)

theorem said_divisor : ((fuzz divisorRun 1 1 true).after divisorStart).crashes.map said =
    [[("20", true, false), ("3", false, true)]] := by
  decide +kernel

theorem reports_divisor : (1 : Int) ≤ 1 ∧ divisorStart.crashes = [] ∧
    ∃ report ∈ ((fuzz divisorRun 1 1 true).after divisorStart).crashes,
      said report = [("20", true, false), ("3", false, true)] ∧
      ∃ g h, [g, h] <:+: divisorStart :: history divisorRun 1 1 true 1 divisorStart ∧
        h.crashes = g.crashes ++ [report] ∧ ∃ candidate out, mutant.result g = .ok candidate ∧
          IsCrash divisorRun 1 true candidate out ∧ g.corpus.lookup out.depth = none ∧
          List.Forall₂ Describes (arguments candidate) report := by
  have hmem : [("20", true, false), ("3", false, true)] ∈
      ((fuzz divisorRun 1 1 true).after divisorStart).crashes.map said := by
    rw [said_divisor]
    exact List.mem_singleton_self _
  obtain ⟨report, hreport, hsaid⟩ := List.mem_map.1 hmem
  exact ⟨Int.le_refl 1, rfl, report, hreport, hsaid,
    (fuzz_reports_unprotected divisorRun 1 1 divisorStart (Int.le_refl 1) rfl).2 report hreport⟩

end Divisor

end Assay.Fuzz
