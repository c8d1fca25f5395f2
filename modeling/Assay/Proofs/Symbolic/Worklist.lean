import Mathlib.Algebra.Ring.Nat
import Assay.Proofs.Loop
import Assay.Proofs.Symbolic.Agreement

/-!
# An exploration ends

`worklist`: the exploration as a loop over a list of nodes that are still to be explored. A round
takes the first node and puts its successors, of which there are at most two, in its place. Each is
a step further down, so the nodes weigh less after the round: one that can go `n` steps down weighs
`2 ^ n - 1`. A step adds at most one condition to a path, and no branch is added whose conditions
are found already. None of this depends on how terms are written, on what the solver answers, or on
whether it answers the same question twice in the same way.
-/

namespace Assay.Symbolic

section Step

variable {lib : Library} {p : Place} {s : State} {xs : List Successor}

/-- At most two ways to go on, each under one condition at most. -/
structure IsNarrow (xs : List Successor) : Prop where
  length_le : xs.length ≤ 2
  conditions_le : ∀ x ∈ xs, x.conditions.length ≤ 1

theorem isNarrow_single {q : Place} {s' : State} {ts : List Term} (h : ts.length ≤ 1) :
    IsNarrow [⟨q, s', ts⟩] :=
  ⟨Nat.le_succ 1, List.forall_mem_singleton.2 h⟩

theorem isNarrow_of_next (h : Except.ok (next p s) = (.ok xs : Except Fault _)) : IsNarrow xs := by
  rw [← Except.ok.inj h]
  exact isNarrow_single (Nat.zero_le 1)

theorem isNarrow_branch (p : Place) (s : State) (target : Int) (taken passed : Term) :
    IsNarrow (branch p s target taken passed) := by
  refine ⟨Nat.le_refl 2, fun x hx => ?_⟩
  rcases List.mem_pair.1 hx with rfl | rfl <;> exact Nat.le_refl 1

theorem isNarrow_load {i : Int} (h : load p s i = .ok xs) : IsNarrow xs := by
  rw [load] at h
  split at h
  · exact isNarrow_of_next h
  · cases h

theorem isNarrow_binary {a : Arith} (h : binary p s a = .ok xs) : IsNarrow xs := by
  obtain ⟨⟨c2, s2⟩, -, h⟩ := bind_eq_ok.1 h
  obtain ⟨⟨c1, s1⟩, -, h⟩ := bind_eq_ok.1 h
  obtain ⟨t1, -, h⟩ := bind_eq_ok.1 h
  obtain ⟨t2, -, h⟩ := bind_eq_ok.1 h
  rw [← Except.ok.inj h]
  refine isNarrow_single ?_
  split
  · exact Nat.le_refl 1
  · exact Nat.zero_le 1

theorem isNarrow_compareZero {c : String} {target : Int} (h : compareZero p s c target = .ok xs) :
    IsNarrow xs := by
  obtain ⟨⟨c1, s1⟩, -, h⟩ := bind_eq_ok.1 h
  obtain ⟨t, -, h⟩ := bind_eq_ok.1 h
  split at h
  · rw [← Except.ok.inj h]
    exact isNarrow_branch _ _ _ _ _
  · cases h

theorem isNarrow_compare {c : String} {target : Int} (h : compare p s c target = .ok xs) :
    IsNarrow xs := by
  obtain ⟨⟨c2, s2⟩, -, h⟩ := bind_eq_ok.1 h
  obtain ⟨⟨c1, s1⟩, -, h⟩ := bind_eq_ok.1 h
  obtain ⟨t1, -, h⟩ := bind_eq_ok.1 h
  obtain ⟨t2, -, h⟩ := bind_eq_ok.1 h
  split at h
  · rw [← Except.ok.inj h]
    exact isNarrow_branch _ _ _ _ _
  · cases h

theorem isNarrow_increment {i amount : Int} (h : increment p s i amount = .ok xs) :
    IsNarrow xs := by
  obtain ⟨c, -, h⟩ := bind_eq_ok.1 h
  obtain ⟨t, -, h⟩ := bind_eq_ok.1 h
  exact isNarrow_of_next h

theorem isNarrow_unknownFor {n : Nat} {name : String} (h : unknownFor p s n name = .ok xs) :
    IsNarrow xs := by
  obtain ⟨s', -, h⟩ := bind_eq_ok.1 h
  exact isNarrow_of_next h

theorem isNarrow_discard {n : Nat} (h : discard p n s = .ok xs) : IsNarrow xs := by
  induction n generalizing s with
  | zero => exact isNarrow_of_next h
  | succ n ih =>
    obtain ⟨⟨c, s'⟩, -, h⟩ := bind_eq_ok.1 h
    exact ih h

theorem isNarrow_getStatic {f : FieldRef} (h : getStatic p s f = .ok xs) : IsNarrow xs := by
  obtain ⟨name, -, h⟩ := bind_eq_ok.1 h
  split at h
  · rw [← Except.ok.inj h]
    exact isNarrow_single (Nat.zero_le 1)
  · exact isNarrow_unknownFor h

theorem isNarrow_exec {i : Instr} (h : exec p s i = .ok xs) : IsNarrow xs := by
  rw [exec] at h
  split at h
  · exact isNarrow_of_next h
  · exact isNarrow_load h
  · exact isNarrow_load h
  · exact isNarrow_binary h
  · exact isNarrow_compareZero h
  · exact isNarrow_compare h
  · rw [← Except.ok.inj h]
    exact ⟨Nat.zero_le 2, List.forall_mem_nil _⟩
  · split at h
    · obtain ⟨c, -, h⟩ := bind_eq_ok.1 h
      exact isNarrow_of_next h
    · exact isNarrow_of_next h
  · obtain ⟨c, -, h⟩ := bind_eq_ok.1 h
    exact isNarrow_of_next h
  · exact isNarrow_increment h
  · rw [← Except.ok.inj h]
    exact isNarrow_single (Nat.zero_le 1)
  · exact isNarrow_getStatic h
  · exact isNarrow_unknownFor h
  · exact isNarrow_discard h
  · split at h
    · exact isNarrow_unknownFor h
    · split at h
      · exact isNarrow_unknownFor h
      · exact isNarrow_of_next h
  · exact isNarrow_discard h
  · exact isNarrow_unknownFor h
  · exact isNarrow_unknownFor h
  · obtain ⟨name, -, h⟩ := bind_eq_ok.1 h
    exact isNarrow_unknownFor h
  · obtain ⟨c, -, h⟩ := bind_eq_ok.1 h
    exact isNarrow_of_next h
  · exact isNarrow_of_next h

theorem isNarrow_step (h : step lib p s = .ok xs) : IsNarrow xs := by
  obtain ⟨i, -, h⟩ := bind_eq_ok.1 h
  obtain ⟨line, -, h⟩ := bind_eq_ok.1 h
  exact isNarrow_exec h

end Step

section Found

variable {print : Term.Printer} {depth : Nat} {found : Found} {b : Branch}

/-- The texts of branches with one to `depth` conditions, no two of which have the same text of
conditions. -/
def IsBounded (print : Term.Printer) (depth : Nat) (found : Found) : Prop :=
  ∃ bs : List Branch, found = bs.map (Branch.text print) ∧
    (∀ b ∈ bs, 0 < b.path.length ∧ b.path.length ≤ depth) ∧
    (bs.map fun b => Term.listText print b.path).Nodup

theorem isBounded_nil (print : Term.Printer) (depth : Nat) : IsBounded print depth [] :=
  ⟨[], rfl, nofun, List.nodup_nil⟩

theorem IsBounded.addBranch (h : IsBounded print depth found) (hpos : 0 < b.path.length)
    (hle : b.path.length ≤ depth) : IsBounded print depth (addBranch print b found) := by
  rw [Symbolic.addBranch]
  split
  · exact h
  · rename_i hnew
    obtain ⟨bs, rfl, hbs, hnodup⟩ := h
    refine ⟨bs ++ [b], by simp, ?_, ?_⟩
    · intro b' hb'
      rcases List.mem_append.1 hb' with hb' | hb'
      · exact hbs b' hb'
      · rw [List.mem_singleton.1 hb']
        exact ⟨hpos, hle⟩
    · rw [List.map_append, List.map_singleton, List.nodup_append]
      refine ⟨hnodup, List.pairwise_singleton _ _, ?_⟩
      -- a text that is there already is a word of the entry that has it
      rintro shown hshown _ hlast rfl
      obtain ⟨b', hb', hsame⟩ := List.mem_map.1 hshown
      refine hnew (List.any_eq_true.2 ⟨b'.text print, List.mem_map_of_mem hb',
        Text.hasWord_iff.2 ?_⟩)
      rw [← List.mem_singleton.1 hlast, ← hsame, b'.toList_text print]
      exact List.infix_append _ _ _

end Found

/-- The answers of a solver whether conditions can hold together. An answer may depend on how many
questions came before. -/
abbrev Solver := Nat → List Term → Bool

/-- The branches found, the successors to be followed with their paths, and how many questions the
solver was asked. -/
structure Survey where
  found : Found
  kept : List (Successor × List Term)
  asked : Nat

namespace Survey

variable {s : Survey} {followed : Bool} {k k' : Successor × List Term}

def keep (s : Survey) (followed : Bool) (k : Successor × List Term) : Survey :=
  { s with kept := if followed then k :: s.kept else s.kept }

theorem length_keep_le : (s.keep followed k).kept.length ≤ s.kept.length + 1 := by
  cases followed with
  | true => exact Nat.le_refl _
  | false => exact Nat.le_succ _

theorem mem_keep (h : k' ∈ (s.keep followed k).kept) : k' = k ∨ k' ∈ s.kept := by
  cases followed with
  | true => exact List.mem_cons.1 h
  | false => exact .inr h

end Survey

namespace Solver

/-- A survey by a solver, which is asked for the status of a branch and then again whether to follow
it. A path without conditions is no branch. -/
def survey (print : Term.Printer) (solver : Solver) (path : List Term) :
    List Successor → Found → Nat → Survey
  | [], found, asked => ⟨found, [], asked⟩
  | x :: xs, found, asked =>
    let new := path ++ x.conditions
    let found := if new.isEmpty then found else addBranch print ⟨new, solver asked new⟩ found
    let asked := if new.isEmpty then asked else asked + 1
    (solver.survey print path xs found (asked + 1)).keep (solver asked new) (x, new)

/-- The solver that answers every question as the oracle does. -/
def ofOracle (oracle : Oracle) : Solver := fun _ ts => (oracle ts).isSat

variable {print : Term.Printer} {solver : Solver} {path : List Term} {xs : List Successor}
  {found : Found} {asked depth : Nat}

theorem length_survey_le : (solver.survey print path xs found asked).kept.length ≤ xs.length := by
  induction xs generalizing found asked with
  | nil => exact Nat.le_refl 0
  | cons x xs ih => exact Nat.le_trans Survey.length_keep_le (Nat.succ_le_succ ih)

theorem mem_survey_kept {k : Successor × List Term}
    (h : k ∈ (solver.survey print path xs found asked).kept) :
    ∃ x ∈ xs, k = (x, path ++ x.conditions) := by
  induction xs generalizing found asked with
  | nil => cases h
  | cons x xs ih =>
    rcases Survey.mem_keep h with rfl | h
    · exact ⟨x, List.mem_cons_self, rfl⟩
    · obtain ⟨y, hy, rfl⟩ := ih h
      exact ⟨y, List.mem_cons_of_mem x hy, rfl⟩

theorem isBounded_survey (hpath : path.length < depth) (hxs : ∀ x ∈ xs, x.conditions.length ≤ 1)
    (hfound : IsBounded print depth found) :
    IsBounded print depth (solver.survey print path xs found asked).found := by
  induction xs generalizing found asked with
  | nil => exact hfound
  | cons x xs ih =>
    have hx := hxs x List.mem_cons_self
    refine ih (fun y hy => hxs y (List.mem_cons_of_mem x hy)) ?_
    split
    · exact hfound
    · rename_i hne
      refine hfound.addBranch (List.length_pos_iff.2 (by simpa using hne)) ?_
      rw [List.length_append]
      omega

theorem survey_ofOracle (print : Term.Printer) (oracle : Oracle) (path : List Term)
    (xs : List Successor) (found : Found) (asked : Nat) :
    ((ofOracle oracle).survey print path xs found asked).found =
        (Symbolic.survey print oracle path xs found).1 ∧
      ((ofOracle oracle).survey print path xs found asked).kept =
        (Symbolic.survey print oracle path xs found).2 := by
  induction xs generalizing found asked with
  | nil => exact ⟨rfl, rfl⟩
  | cons x xs ih =>
    refine ⟨(ih _ _).1, ?_⟩
    simp only [survey, Survey.keep, Symbolic.survey, ofOracle, (ih _ _).2]

end Solver

/-- A state to be explored, with the path to it and the number of steps on it. -/
structure Node where
  place : Place
  state : State
  path : List Term
  steps : Nat

/-- The nodes still to be explored, the next one first. -/
structure Agenda where
  nodes : List Node
  found : Found
  asked : Nat

/-- The method's first instruction, with its parameters unknown. -/
def Agenda.start (method : MethodId) (names : List String) : Agenda :=
  ⟨[⟨⟨method, 0⟩, .ofNames (variableNames names), [], 0⟩], [], 0⟩

/-- The nodes that a survey adds. Of several the last one comes first, and none comes after `depth`
steps. -/
def Survey.nodes (s : Survey) (depth steps : Nat) : List Node :=
  if steps < depth then s.kept.reverse.map fun k => ⟨k.1.place, k.1.state, k.2, steps⟩ else []

def Agenda.explored (print : Term.Printer) (a : Agenda) (solver : Solver) (depth : Nat)
    (node : Node) (rest : List Node) (xs : List Successor) : Agenda :=
  let s := solver.survey print node.path xs a.found a.asked
  ⟨s.nodes depth (node.steps + 1) ++ rest, s.found, s.asked⟩

def worklist (print : Term.Printer) (solver : Solver) (lib : Library) (depth : Nat) :
    Loop Agenda where
  isDone a := a.nodes.isEmpty
  round a :=
    match a.nodes with
    | [] => .ok a
    | node :: rest =>
      match step lib node.place node.state with
      | .error e => .error (stepFault lib node.place e)
      | .ok xs => .ok (a.explored print solver depth node rest xs)

section Worklist

variable {print : Term.Printer} {solver : Solver} {lib : Library} {depth : Nat} {a b : Agenda}

theorem worklist_round_eq_ok (hmore : (worklist print solver lib depth).isDone a = false)
    (h : (worklist print solver lib depth).round a = .ok b) :
    ∃ node rest xs, a.nodes = node :: rest ∧ step lib node.place node.state = .ok xs ∧
      b = a.explored print solver depth node rest xs := by
  cases hnodes : a.nodes with
  | nil => simp [worklist, hnodes] at hmore
  | cons node rest =>
    cases hstep : step lib node.place node.state with
    | error e => simp [worklist, hnodes, hstep] at h
    | ok xs =>
      simp only [worklist, hnodes, hstep] at h
      exact ⟨node, rest, xs, rfl, hstep, (Except.ok.inj h).symm⟩

theorem worklist_round_eq_error {e : Fault}
    (h : (worklist print solver lib depth).round a = .error e) :
    ∃ node rest e', a.nodes = node :: rest ∧ step lib node.place node.state = .error e' ∧
      e = stepFault lib node.place e' := by
  cases hnodes : a.nodes with
  | nil => simp [worklist, hnodes] at h
  | cons node rest =>
    cases hstep : step lib node.place node.state with
    | ok xs => simp [worklist, hnodes, hstep] at h
    | error e' =>
      simp only [worklist, hnodes, hstep] at h
      exact ⟨node, rest, e', rfl, hstep, (Except.error.inj h).symm⟩

/-- Nodes above the bound, each with a condition for every step at most. -/
structure Agenda.IsSound (print : Term.Printer) (depth : Nat) (a : Agenda) : Prop where
  nodes : ∀ node ∈ a.nodes, node.steps < depth ∧ node.path.length ≤ node.steps
  found : IsBounded print depth a.found

/-- More than the weight of two nodes that are a step further down. -/
def Node.weight (depth : Nat) (node : Node) : Nat := Nat.pow 2 (depth - node.steps) - 1

def Agenda.weight (depth : Nat) (a : Agenda) : Nat := (a.nodes.map (Node.weight depth)).sum

theorem Agenda.isSound_start (print : Term.Printer) (hdepth : 0 < depth) (method : MethodId)
    (names : List String) :
    (start method names).IsSound print depth :=
  ⟨List.forall_mem_singleton.2 ⟨hdepth, Nat.zero_le 0⟩, isBounded_nil print depth⟩

theorem Agenda.IsSound.explored {node : Node} {rest : List Node} {xs : List Successor}
    (ha : a.IsSound print depth) (hnodes : a.nodes = node :: rest) (hxs : IsNarrow xs) :
    (a.explored print solver depth node rest xs).IsSound print depth := by
  have hall := ha.nodes
  rw [hnodes] at hall
  obtain ⟨hsteps, hpath⟩ := hall node List.mem_cons_self
  refine ⟨fun node' hnode' => ?_, Solver.isBounded_survey (by omega) hxs.conditions_le ha.found⟩
  rcases List.mem_append.1 hnode' with hnew | hold
  · rw [Survey.nodes] at hnew
    split at hnew
    · rename_i hlt
      obtain ⟨k, hk, rfl⟩ := List.mem_map.1 hnew
      obtain ⟨x, hx, rfl⟩ := Solver.mem_survey_kept (List.mem_reverse.1 hk)
      have hx := hxs.conditions_le x hx
      refine ⟨hlt, ?_⟩
      simp only [List.length_append]
      omega
    · cases hnew
  · exact hall node' (List.mem_cons_of_mem node hold)

theorem Survey.weight_nodes_lt {s : Survey} (hkept : s.kept.length ≤ 2) {node : Node}
    (hsteps : node.steps < depth) :
    ((s.nodes depth (node.steps + 1)).map (Node.weight depth)).sum < node.weight depth := by
  obtain ⟨left, hleft⟩ : ∃ left, depth - node.steps = left + 1 := ⟨depth - node.steps - 1, by omega⟩
  have hnode : node.weight depth = Nat.pow 2 left * 2 - 1 := by
    rw [Node.weight, hleft, Nat.pow_eq, Nat.pow_eq, Nat.pow_succ]
  have hpos : 0 < Nat.pow 2 left := Nat.two_pow_pos left
  rw [hnode, Survey.nodes]
  split
  · have hless : depth - (node.steps + 1) = left := by omega
    have heach : ∀ k ∈ s.kept.reverse,
        (Node.weight depth ∘ fun k => ⟨k.1.place, k.1.state, k.2, node.steps + 1⟩) k =
        Nat.pow 2 left - 1 := by
      intro k _
      rw [Function.comp_apply, Node.weight, hless]
    -- two nodes that can go `left` steps down weigh one less than a node that can go one step more
    have htwo := Nat.mul_le_mul_right (Nat.pow 2 left - 1) hkept
    rw [List.map_map, List.map_eq_replicate_iff.2 heach, List.sum_replicate_nat,
      List.length_reverse]
    omega
  · simp only [List.map_nil, List.sum_nil]
    omega

theorem Agenda.weight_explored_lt {node : Node} {rest : List Node} {xs : List Successor}
    (ha : a.IsSound print depth) (hnodes : a.nodes = node :: rest) (hxs : IsNarrow xs) :
    (a.explored print solver depth node rest xs).weight depth < a.weight depth := by
  have hsteps : node.steps < depth := (ha.nodes node (by simp [hnodes])).1
  have hlt := Survey.weight_nodes_lt (s := solver.survey print node.path xs a.found a.asked)
    (Nat.le_trans Solver.length_survey_le hxs.length_le) hsteps
  simp only [Agenda.weight, Agenda.explored, hnodes, List.map_append, List.sum_append,
    List.map_cons, List.sum_cons]
  omega

theorem Agenda.weight_pos (ha : a.IsSound print depth)
    (hmore : (worklist print solver lib depth).isDone a = false) :
    0 < a.weight depth := by
  cases hnodes : a.nodes with
  | nil => simp [worklist, hnodes] at hmore
  | cons node rest =>
    have hsteps : node.steps < depth := (ha.nodes node (by simp [hnodes])).1
    have hlt := Survey.weight_nodes_lt (s := ⟨[], [], 0⟩) (Nat.zero_le 2) hsteps
    simp only [Agenda.weight, hnodes, List.map_cons, List.sum_cons]
    omega

/-- What the exploration from all the nodes would find. -/
def Agenda.rest (print : Term.Printer) (oracle : Oracle) (lib : Library) (depth : Nat)
    (a : Agenda) : Except Fault Found :=
  a.nodes.foldlM (fun found node =>
    explore print oracle lib (depth - 1 - node.steps) node.place node.state node.path found) a.found

theorem Agenda.rest_start (print : Term.Printer) (oracle : Oracle) (method : MethodId)
    (names : List String) :
    (start method names).rest print oracle lib depth =
      analyse print oracle lib method names depth := by
  simp only [rest, start, analyse, List.foldlM_cons, List.foldlM_nil]
  exact bind_ok _

theorem Agenda.rest_explored {oracle : Oracle} {node : Node} {rest : List Node}
    {xs : List Successor} (ha : a.IsSound print depth) (hnodes : a.nodes = node :: rest)
    (hstep : step lib node.place node.state = .ok xs) :
    (a.explored print (.ofOracle oracle) depth node rest xs).rest print oracle lib depth =
      a.rest print oracle lib depth := by
  have hsteps : node.steps < depth := (ha.nodes node (by simp [hnodes])).1
  obtain ⟨hfound, hkept⟩ := Solver.survey_ofOracle print oracle node.path xs a.found a.asked
  simp only [Agenda.rest, Agenda.explored, hnodes, List.foldlM_append, List.foldlM_cons]
  congr 1
  rw [explore, hstep, Survey.nodes]
  obtain hlast | ⟨left, hleft⟩ : depth - 1 - node.steps = 0 ∨
      ∃ left, depth - 1 - node.steps = left + 1 := by
    cases depth - 1 - node.steps with
    | zero => exact .inl rfl
    | succ left => exact .inr ⟨left, rfl⟩
  · -- no step is left: the survey is all that both sides make of the node
    rw [if_neg (by omega), hlast, hfound]
    rfl
  · have hnext : depth - 1 - (node.steps + 1) = left := by omega
    rw [if_pos (by omega), hleft, hfound, hkept, List.foldlM_map]
    simp only [hnext]

/-- The exploration of a method is the worklist's, if the solver answers as the oracle does. -/
theorem analyse_eq_worklist {oracle : Oracle} {method : MethodId} {names : List String} {n : Nat}
    {r : Except Fault Agenda} (hdepth : 0 < depth)
    (h : (worklist print (.ofOracle oracle) lib depth).Ends n (.start method names) r) :
    analyse print oracle lib method names depth = r.map Agenda.found := by
  rw [← Agenda.rest_start]
  refine h.value (Agenda.rest print oracle lib depth) Agenda.found
    (Agenda.IsSound print depth) ?_ ?_ ?_
    (Agenda.isSound_start print hdepth method names)
  · intro a _ hdone
    rw [Agenda.rest, List.isEmpty_iff.1 hdone]
    rfl
  · intro a e _ _ hround
    obtain ⟨node, rest, e', hnodes, hstep, rfl⟩ := worklist_round_eq_error hround
    rw [Agenda.rest, hnodes, List.foldlM_cons, explore, hstep]
    rfl
  · intro a b ha hmore hround
    obtain ⟨node, rest, xs, hnodes, hstep, rfl⟩ := worklist_round_eq_ok hmore hround
    exact ⟨ha.explored hnodes (isNarrow_step hstep), Agenda.rest_explored ha hnodes hstep⟩

theorem worklist_ends (print : Term.Printer) (solver : Solver) (lib : Library) (method : MethodId)
    (names : List String) (hdepth : 0 < depth) :
    ∃ n < Nat.pow 2 depth, ∃ r, (worklist print solver lib depth).Ends n (.start method names) r ∧
      ∀ a, r = .ok a → IsBounded print depth a.found := by
  have hround : ∀ a b, a.IsSound print depth → (worklist print solver lib depth).isDone a = false →
      (worklist print solver lib depth).round a = .ok b →
      b.IsSound print depth ∧ b.weight depth < a.weight depth := by
    intro a b ha hmore hround
    obtain ⟨node, rest, xs, hnodes, hstep, rfl⟩ := worklist_round_eq_ok hmore hround
    have hxs := isNarrow_step hstep
    exact ⟨ha.explored hnodes hxs, Agenda.weight_explored_lt ha hnodes hxs⟩
  obtain ⟨n, hn, r, hends, hsound⟩ :=
    Loop.ends_of_measure (Agenda.weight depth) (Agenda.IsSound print depth)
    (fun a ha hmore => Agenda.weight_pos ha hmore) hround
      (Agenda.isSound_start print hdepth method names)
  have hweight : (Agenda.start method names).weight depth = Nat.pow 2 depth - 1 := by
    simp [Agenda.weight, Agenda.start, Node.weight]
  have hpos : 0 < Nat.pow 2 depth := Nat.two_pow_pos depth
  exact ⟨n, by omega, r, hends, fun a ha => (hsound a ha).found⟩

end Worklist

/-- However terms are written and whatever a solver answers, an exploration to the depth `depth`
ends, after fewer than `2 ^ depth` steps. What it finds are branches of one to `depth` conditions,
no two with the same text of conditions. -/
theorem exploration_ends_bounded (print : Term.Printer) (lib : Library) (method : MethodId)
    (names : List String) {depth : Nat} (hdepth : 0 < depth) :
    (∀ solver : Solver, ∃ n < Nat.pow 2 depth, ∃ r,
      (worklist print solver lib depth).Ends n (.start method names) r ∧
        ∀ a, r = .ok a → IsBounded print depth a.found) ∧
    ∀ oracle : Oracle,
      (∃ n < Nat.pow 2 depth, ∃ r,
        (worklist print (.ofOracle oracle) lib depth).Ends n (.start method names) r ∧
          analyse print oracle lib method names depth = r.map Agenda.found) ∧
      ∀ branches, analyse print oracle lib method names depth = .ok branches →
        IsBounded print depth branches := by
  refine ⟨fun solver => worklist_ends print solver lib method names hdepth, fun oracle => ?_⟩
  obtain ⟨n, hn, r, hends, hbounded⟩ :=
    worklist_ends print (.ofOracle oracle) lib method names hdepth
  have hvalue := analyse_eq_worklist hdepth hends
  refine ⟨⟨n, hn, r, hends, hvalue⟩, fun branches hbranches => ?_⟩
  obtain ⟨a, ha, rfl⟩ := map_eq_ok.1 (hvalue.symm.trans hbranches)
  exact hbounded a ha

/-- The count down, which jumps back, also by a solver that takes back every other answer and a
printer that writes every term alike. -/
theorem count_ends_bounded : 0 < 6 ∧
    (∃ n < Nat.pow 2 6, ∃ r, (worklist (fun _ => "...") (fun asked _ => asked % 2 == 0)
      (Machine.single countId countCode) 6).Ends n (.start countId ["a"]) r ∧
        ∀ a, r = .ok a → IsBounded (fun _ => "...") 6 a.found) ∧
    IsBounded Term.text 6 countBranches := by
  have hblunt := exploration_ends_bounded (fun _ => "...") (Machine.single countId countCode)
    countId ["a"] (by decide : 0 < 6)
  have htext := exploration_ends_bounded Term.text (Machine.single countId countCode) countId ["a"]
    (by decide : 0 < 6)
  exact ⟨by decide, hblunt.1 _, (htext.2 .exact).2 _ analyse_count⟩

end Assay.Symbolic
