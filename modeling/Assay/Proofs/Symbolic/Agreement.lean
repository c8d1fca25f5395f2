import Mathlib.Data.List.Nodup
import Assay.Proofs.Symbolic.Branch

/-!
# Symbolic analysis and the machine agree

The analysis of integer code against the runs of the machine. `Machine.trail` lists the conditions
that a run chooses, in terms that stand for its numbers. Every run of at most `depth` steps that has
chosen any is a branch of the analysis, if branches can be told apart by their texts; and values
that satisfy the conditions of a branch lead the machine along these conditions first, unless it
stops before: at a number that is too long to be written, or, in a method without parameters, at the
variable 0, which the analysis takes as given.
-/

namespace Assay

namespace Machine

/-- Whether a conditional jump is made with these values on the stack. -/
def decides (op : Op) (stack : Stack Value) : Bool :=
  match op, stack with
  | .compare c _, y :: x :: _ => (holds c x.content y.content).toOption.getD false
  | .compareZero c _, x :: _ => (holds c x.content (.int 0)).toOption.getD false
  | _, _ => false

/-- The conditions chosen along a number of steps, in terms that stand for the numbers of the
frame. -/
def trail (lib : Library) (off : Bool) : Nat → State → Terms → List Term
  | 0, _, _ => []
  | n + 1, s, ts =>
    match fetch lib s.frame.place, step lib off s with
    | .ok i, .ok (.running t) =>
      ts.conditions i.op (decides i.op s.frame.stack) ++
        trail lib off n t ((ts.follow i.op).getD ts)
    | _, _ => []

section Run

open Terms (Walk HasValues)

variable {lib : Library} {off : Bool} {op : Op} {i : Instr} {p q : Place} {v w : Ints}
  {jumps : Bool} {ts ts' us : Terms} {σ : Assignment} {gap : Prop} {n : Nat}

/-- What the machine decides is what the effect of the instruction is. -/
theorem Effect.conditions_decides (h : Effect op v jumps w) (ts : Terms) (p : Place) :
    ts.conditions op (decides op (v.frame p).stack) = ts.conditions op jumps := by
  cases h with
  | @compare c hc t x y st ls =>
    have hdec : decides (.compare c t) (Ints.frame ⟨y :: x :: st, ls⟩ p).stack =
        compares c x y := by
      simp only [decides, Ints.frame, List.map_cons, Value.ofInt, holds_int hc]
      rfl
    rw [hdec]
  | @compareZero c hc t x st ls =>
    have hdec : decides (.compareZero c t) (Ints.frame ⟨x :: st, ls⟩ p).stack = compares c x 0 := by
      simp only [decides, Ints.frame, List.map_cons, Value.ofInt, holds_int hc]
      rfl
    rw [hdec]
  | _ => rfl

theorem trail_succ (hfetch : fetch lib p = .ok i) (hw : v.IsWritable) (he : Effect i.op v jumps w)
    (hfollow : ts.follow i.op = some ts') (n : Nat) :
    trail lib off (n + 1) ⟨.empty, v.frame p, []⟩ ts = ts.conditions i.op jumps ++
      trail lib off n ⟨.empty, w.frame (p.follow i.op jumps), []⟩ ts' := by
  have hplace : (State.mk .empty (v.frame p) []).frame.place = p := rfl
  rw [trail, hplace, hfetch, step_effect [] hfetch hw he]
  simp only [hfollow, Option.getD_some, he.conditions_decides]

theorem step_long (off : Bool) (hfetch : fetch lib p = .ok i) (hop : i.op.IsIntegral)
    (hw : ¬ v.IsWritable) :
    step lib off ⟨.empty, v.frame p, []⟩ = .error Text.tooLong := by
  rw [step_eq (s := ⟨.empty, v.frame p, []⟩) hfetch hop.ne_new,
    if_neg (by rwa [Ints.isWritable_frame])]

/-- The run of so many steps from numbers goes on, and has chosen these conditions. -/
structure Chooses (lib : Library) (off : Bool) (n : Nat) (p : Place) (v : Ints) (ts : Terms)
    (path : List Term) : Prop where
  runs : ∃ s, after lib off n ⟨.empty, v.frame p, []⟩ = some s
  trail : trail lib off n ⟨.empty, v.frame p, []⟩ ts = path

theorem Chooses.cons {path : List Term} (hfetch : fetch lib p = .ok i) (hw : v.IsWritable)
    (he : Effect i.op v jumps w) (hfollow : ts.follow i.op = some ts')
    (h : Chooses lib off n (p.follow i.op jumps) w ts' path) :
    Chooses lib off (n + 1) p v ts (ts.conditions i.op jumps ++ path) := by
  refine ⟨?_, ?_⟩
  · rw [after_succ (step_effect [] hfetch hw he)]
    exact h.runs
  · rw [trail_succ hfetch hw he hfollow, h.trail]

end Run

end Machine

namespace Symbolic

/-- The variables that stand for parameters. Without names there is still a variable, but it stands
for none. -/
def inputs (names : List String) : List String := if names = [] then [] else variableNames names

end Symbolic

namespace Symbolic

open Machine (after startInts trail)
open Terms (Walk)

section

variable {print : Term.Printer} {oracle : Oracle} {lib : Library} {method : MethodId}
  {names : List String} {depth : Nat} {branches : List String}

end

section Examples

open Machine (single code_single)

variable {print : Term.Printer} {oracle : Oracle} {lib : Library} {d : Nat} {p p₁ p₂ : Place}
  {s s' : State} {path : List Term} {found : Found} {t₁ t₂ : Term}

theorem addBranch_new {b : Branch}
    (h : found.any (Text.hasWord (Term.listText print b.path)) = false) :
    addBranch print b found = found ++ [b.text print] := by
  rw [addBranch, h]
  rfl

theorem explore_end (h : step lib p s = .ok []) :
    explore print oracle lib d p s path found = .ok found := by
  cases d <;> rw [explore, h] <;> rfl

/-- A step without conditions finds nothing new. -/
theorem explore_next (h : step lib p s = .ok [⟨p₁, s', []⟩]) (hsat : (oracle path).isSat = true)
    (hfound : path ≠ [] → found.any (Text.hasWord (Term.listText print path)) = true) :
    explore print oracle lib (d + 1) p s path found =
      explore print oracle lib d p₁ s' path found := by
  have hadd : (if path = [] then found else addBranch print ⟨path, true⟩ found) = found := by
    by_cases hp : path = []
    · simp [hp]
    · simp [addBranch, hfound hp]
  rw [explore, h]
  simp [survey, hsat, hadd, bind_ok]

/-- A step with two branches, which is the last one. -/
theorem explore_fork_last (h : step lib p s = .ok [⟨p₁, s', [t₁]⟩, ⟨p₂, s', [t₂]⟩])
    {sat₁ sat₂ : Bool} (hsat₁ : (oracle (path ++ [t₁])).isSat = sat₁)
    (hsat₂ : (oracle (path ++ [t₂])).isSat = sat₂) :
    explore print oracle lib 0 p s path found =
      .ok (addBranch print ⟨path ++ [t₂], sat₂⟩ (addBranch print ⟨path ++ [t₁], sat₁⟩ found)) := by
  rw [explore, h]
  simp [survey, hsat₁, hsat₂]

/-- A step with two branches that can hold. -/
theorem explore_fork (h : step lib p s = .ok [⟨p₁, s', [t₁]⟩, ⟨p₂, s', [t₂]⟩])
    (hsat₁ : (oracle (path ++ [t₁])).isSat = true) (hsat₂ : (oracle (path ++ [t₂])).isSat = true) :
    explore print oracle lib (d + 1) p s path found = (do
      let found ← explore print oracle lib d p₂ s' (path ++ [t₂])
        (addBranch print ⟨path ++ [t₂], true⟩ (addBranch print ⟨path ++ [t₁], true⟩ found))
      explore print oracle lib d p₁ s' (path ++ [t₁]) found) := by
  rw [explore, h]
  simp [survey, hsat₁, hsat₂, bind_ok]

theorem step_single {id : MethodId} {code : List Instr} (hops : ∀ i ∈ code, i.op.IsIntegral)
    {n : Nat} {i : Instr} (hi : code[n]? = some i) {s : State} {successors : List Successor}
    (h : exec ⟨id, n⟩ s i = .ok successors) :
    step (single id code) ⟨id, n⟩ s = .ok successors := by
  obtain ⟨line, hline⟩ := Machine.exists_line i (hops i (List.mem_of_getElem? hi)).ne_new
  rw [step, Machine.fetch_single n hi, ok_bind, hline, ok_bind, h]

theorem isSat_exact (σ : Assignment) {ts : List Term} (h : ∀ t ∈ ts, t.truthValue? σ = some true) :
    (Oracle.exact ts).isSat = true :=
  (Oracle.isExact_exact ts).2 ⟨σ, h⟩

/-- Counts its parameter down to zero. -/
def countId : MethodId := ⟨⟨"math.Count"⟩, "down", [.int], none⟩

def countCode : List Instr := [
  .load .int (.int 0), .compareZero "le" (.int 4), .incr (.int 0) (.int (-1)), .goto (.int 0),
  .ret none].map (Instr.mk .null)

def countBranches : List String := [
  "Branch: [a <= 0], Status: SAT", "Branch: [a > 0], Status: SAT",
  "Branch: [a > 0, a + -1 <= 0], Status: SAT", "Branch: [a > 0, a + -1 > 0], Status: SAT"]

theorem isIntegral_countCode : ∀ i ∈ countCode, i.op.IsIntegral := by
  simp only [countCode, List.map_cons, List.map_nil, List.forall_mem_cons]
  exact ⟨.load _, .compareZero (by decide) _, .incr _ _, .goto _, .ret none, by simp⟩

/-- The state of the count, with the term that it counts down. -/
def counting (t : Term) : State := ⟨[(0, .term t)], []⟩

theorem step_load (id : MethodId) (t : Term) :
    step (single id countCode) ⟨id, 0⟩ (counting t) =
      .ok [⟨⟨id, 1⟩, push (.term t) (counting t), []⟩] :=
  step_single isIntegral_countCode (n := 0) rfl rfl

theorem step_test (id : MethodId) (t : Term) :
    step (single id countCode) ⟨id, 1⟩ (push (.term t) (counting t)) =
      .ok [⟨⟨id, 4⟩, counting t, [.bin .le t (.int 0)]⟩,
        ⟨⟨id, 2⟩, counting t, [.bin .gt t (.int 0)]⟩] :=
  step_single isIntegral_countCode (n := 1) rfl rfl

/-- The same value for all variables. -/
def constantly (n : Int) : Assignment := ⟨fun _ => n, fun _ => false⟩

/-- The branches of the count up to its second test. -/
theorem analyse_count :
    analyse Term.text .exact (single countId countCode) countId ["a"] 6 = .ok countBranches := by
  let lib := single countId countCode
  let a : Term := .var "a"
  let b : Term := .bin .add a (.int (-1))
  let found := ["Branch: [a <= 0], Status: SAT", "Branch: [a > 0], Status: SAT"]
  have hgt : (Oracle.exact [.bin .gt a (.int 0)]).isSat = true :=
    isSat_exact (constantly 2) (by decide)
  have hincr : step lib ⟨countId, 2⟩ (counting a) = .ok [⟨⟨countId, 3⟩, counting b, []⟩] :=
    step_single isIntegral_countCode (n := 2) rfl rfl
  have hgoto : step lib ⟨countId, 3⟩ (counting b) = .ok [⟨⟨countId, 0⟩, counting b, []⟩] :=
    step_single isIntegral_countCode (n := 3) rfl rfl
  have htest : addBranch Term.text ⟨[.bin .gt a (.int 0)], true⟩
      (addBranch Term.text ⟨[.bin .le a (.int 0)], true⟩ []) = found := by
    rw [addBranch_new (by decide), addBranch_new (by decide)]
    rfl
  have hknown :
      found.any (Text.hasWord (Term.listText Term.text [.bin .gt a (.int 0)])) = true := by
    decide
  have hbody :
      explore Term.text .exact lib 3 ⟨countId, 2⟩ (counting a) [.bin .gt a (.int 0)] found =
      .ok countBranches := by
    rw [explore_next hincr hgt fun _ => hknown, explore_next hgoto hgt fun _ => hknown,
      explore_next (step_load countId b) hgt fun _ => hknown,
      explore_fork_last (step_test countId b) (isSat_exact (constantly 1) (by decide))
        (isSat_exact (constantly 2) (by decide)),
      addBranch_new (by decide), addBranch_new (by decide)]
    rfl
  calc analyse Term.text .exact lib countId ["a"] 6
    _ = explore Term.text .exact lib 5 ⟨countId, 0⟩ (counting a) [] [] := rfl
    _ = explore Term.text .exact lib 4 ⟨countId, 1⟩ (push (.term a) (counting a)) [] [] :=
      explore_next (step_load countId a) (isSat_exact (constantly 0) (by simp))
        (fun h => absurd rfl h)
    _ = (explore Term.text .exact lib 3 ⟨countId, 2⟩ (counting a) [.bin .gt a (.int 0)] found >>=
        explore Term.text .exact lib 3 ⟨countId, 4⟩ (counting a) [.bin .le a (.int 0)]) := by
      rw [← htest]
      exact explore_fork (step_test countId a) (isSat_exact (constantly 0) (by decide)) hgt
    _ = _ := by
      rw [hbody, ok_bind]
      exact explore_end (step_single isIntegral_countCode (n := 4) rfl rfl)

end Examples

open Machine (single code_single)

end Symbolic

end Assay
