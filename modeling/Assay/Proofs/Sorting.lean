import Mathlib.Data.Set.Defs
import Mathlib.Order.Lattice
import Assay.Proofs.Fallible
import Assay.Sorting

/-!
# Sorting by a key

Where the comparison does not fail and tells which of two keys is smaller, the sort gives the same
elements in order of their keys. The run at the front is in order because each of its elements was
compared with the one before it; every further element goes to the place that bisection finds, with
no larger key before it and only larger ones behind it.
-/

namespace Assay.Sorting

variable {α κ : Type} [LinearOrder κ] {less : α → α → Except Fault Bool} {key : α → κ}
  {P : α → Prop}

/-- On the elements of `P` the comparison tells which key is smaller. -/
def Compares (less : α → α → Except Fault Bool) (key : α → κ) (P : α → Prop) : Prop :=
  ∀ a b, P a → P b → less a b = .ok (decide (key a < key b))

/-- The comparison answers for any two elements of `S`, and it is a strict total order of them. -/
structure IsStrictTotal (less : α → α → Except Fault Bool) (S : Set α) : Prop where
  answers : ∀ a ∈ S, ∀ b ∈ S, ∃ x, less a b = .ok x
  irrefl : ∀ a ∈ S, less a a = .ok false
  trans : ∀ a ∈ S, ∀ b ∈ S, ∀ c ∈ S, less a b = .ok true → less b c = .ok true → less a c = .ok true
  exactlyOne : ∀ a ∈ S, ∀ b ∈ S,
    (less a b = .ok true ∧ a ≠ b ∧ less b a = .ok false) ∨
    (less a b = .ok false ∧ a = b ∧ less b a = .ok false) ∨
    (less a b = .ok false ∧ a ≠ b ∧ less b a = .ok true)

/-- Elements with different keys are ordered as their keys are. -/
theorem Compares.isStrictTotal {S : Set α} (h : Compares less key (· ∈ S))
    (hkey : ∀ a ∈ S, ∀ b ∈ S, key a = key b → a = b) : IsStrictTotal less S where
  answers a ha b hb := ⟨_, h a b ha hb⟩
  irrefl a ha := by rw [h a a ha ha, decide_eq_false (lt_irrefl _)]
  trans a ha b hb c hc hab hbc := by
    rw [h a b ha hb, Except.ok.injEq, decide_eq_true_iff] at hab
    rw [h b c hb hc, Except.ok.injEq, decide_eq_true_iff] at hbc
    rw [h a c ha hc, decide_eq_true (lt_trans hab hbc)]
  exactlyOne a ha b hb := by
    rw [h a b ha hb, h b a hb ha]
    rcases lt_trichotomy (key a) (key b) with hlt | heq | hgt
    · have hne : a ≠ b := by
        rintro rfl
        exact lt_irrefl _ hlt
      exact .inl ⟨by rw [decide_eq_true hlt], hne, by rw [decide_eq_false (lt_asymm hlt)]⟩
    · obtain rfl := hkey a ha b hb heq
      exact .inr (.inl ⟨by simp, rfl, by simp⟩)
    · have hne : a ≠ b := by
        rintro rfl
        exact lt_irrefl _ hgt
      exact .inr (.inr ⟨by rw [decide_eq_false (lt_asymm hgt)], hne, by rw [decide_eq_true hgt]⟩)

/-- The keys do not go down along the list. -/
def IsAscending (key : α → κ) (xs : List α) : Prop := xs.Pairwise fun a b => key a ≤ key b

theorem ascending_eq_ok (h : Compares less key P) {last : α} {xs : List α} (hlast : P last)
    (hxs : ∀ x ∈ xs, P x) :
    ∃ n, ascending less last xs = .ok n ∧ IsAscending key (last :: xs.take n) := by
  induction xs generalizing last with
  | nil => exact ⟨0, rfl, List.pairwise_singleton _ _⟩
  | cons x xs ih =>
    obtain ⟨hx, hxs⟩ := List.forall_mem_cons.1 hxs
    have hcompare := h x last hx hlast
    by_cases hlt : key x < key last
    · exact ⟨0, by simp [ascending, hcompare, hlt], List.pairwise_singleton _ _⟩
    · obtain ⟨n, hn, hrun⟩ := ih hx hxs
      refine ⟨n + 1, by simp [ascending, hcompare, hlt, hn], List.pairwise_cons.2 ⟨?_, hrun⟩⟩
      rw [List.take_succ_cons, List.forall_mem_cons]
      exact ⟨not_lt.1 hlt, fun y hy => le_trans (not_lt.1 hlt) (List.rel_of_pairwise_cons hrun hy)⟩

theorem descending_eq_ok (h : Compares less key P) {last : α} {xs : List α} (hlast : P last)
    (hxs : ∀ x ∈ xs, P x) :
    ∃ n, descending less last xs = .ok n ∧ (last :: xs.take n).Pairwise fun a b =>
      key b < key a := by
  induction xs generalizing last with
  | nil => exact ⟨0, rfl, List.pairwise_singleton _ _⟩
  | cons x xs ih =>
    obtain ⟨hx, hxs⟩ := List.forall_mem_cons.1 hxs
    have hcompare := h x last hx hlast
    by_cases hlt : key x < key last
    · obtain ⟨n, hn, hrun⟩ := ih hx hxs
      refine ⟨n + 1, by simp [descending, hcompare, hlt, hn], List.pairwise_cons.2 ⟨?_, hrun⟩⟩
      rw [List.take_succ_cons, List.forall_mem_cons]
      exact ⟨hlt, fun y hy => lt_trans (List.rel_of_pairwise_cons hrun hy) hlt⟩
    · exact ⟨0, by simp [descending, hcompare, hlt], List.pairwise_singleton _ _⟩

/-- The run at the front is in order, and nothing is lost. -/
theorem firstRun_eq_ok (h : Compares less key P) {xs : List α} (hxs : ∀ x ∈ xs, P x) :
    ∃ run rest, firstRun less xs = .ok (run, rest) ∧ IsAscending key run ∧
      (run ++ rest).Perm xs := by
  match xs with
  | [] => exact ⟨[], [], rfl, List.Pairwise.nil, .refl _⟩
  | [x] => exact ⟨[x], [], rfl, List.pairwise_singleton _ _, .refl _⟩
  | x :: y :: rest =>
    obtain ⟨hx, hy, hrest⟩ : P x ∧ P y ∧ ∀ z ∈ rest, P z := by simpa using hxs
    have hcompare := h y x hy hx
    by_cases hlt : key y < key x
    · obtain ⟨n, hn, hrun⟩ := descending_eq_ok h hy hrest
      have hrun : (x :: y :: rest.take n).Pairwise fun a b => key b < key a := by
        refine List.pairwise_cons.2 ⟨List.forall_mem_cons.2 ⟨hlt, fun z hz => ?_⟩, hrun⟩
        exact lt_trans (List.rel_of_pairwise_cons hrun hz) hlt
      refine ⟨(x :: y :: rest.take n).reverse, rest.drop n, by simp [firstRun, hcompare, hlt, hn],
        List.pairwise_reverse.2 (hrun.imp le_of_lt), ?_⟩
      have hperm := (x :: y :: rest.take n).reverse_perm.append_right (rest.drop n)
      simpa using hperm
    · obtain ⟨n, hn, hrun⟩ := ascending_eq_ok h hy hrest
      have hle := not_lt.1 hlt
      refine ⟨x :: y :: rest.take n, rest.drop n, by simp [firstRun, hcompare, hlt, hn],
        List.pairwise_cons.2 ⟨List.forall_mem_cons.2 ⟨hle, fun z hz => ?_⟩, hrun⟩, by simp⟩
      exact le_trans hle (List.rel_of_pairwise_cons hrun hz)

theorem IsAscending.key_le {xs : List α} (h : IsAscending key xs) {i j : Nat} (hi : i < xs.length)
    (hj : j < xs.length) (hij : i ≤ j) : key xs[i] ≤ key xs[j] := by
  rcases Nat.eq_or_lt_of_le hij with rfl | hlt
  · exact le_refl _
  · exact List.pairwise_iff_getElem.1 h i j hi hj hlt

/-- Bisection keeps the place of `x` between `lo` and `hi`: no larger key stands before `lo`, and
only larger ones from `hi` on. -/
theorem place_eq_ok (h : Compares less key P) {sorted : List α} (hsorted : IsAscending key sorted)
    (hP : ∀ y ∈ sorted, P y) {x : α} (hx : P x) {fuel lo hi : Nat} (hfuel : hi - lo ≤ fuel)
    (hlohi : lo ≤ hi) (hhi : hi ≤ sorted.length)
    (hbelow : ∀ i (his : i < sorted.length), i < lo → key sorted[i] ≤ key x)
    (habove : ∀ i (his : i < sorted.length), hi ≤ i → key x < key sorted[i]) :
    ∃ p, place less sorted x fuel lo hi = .ok p ∧
      (∀ i (his : i < sorted.length), i < p → key sorted[i] ≤ key x) ∧
      (∀ i (his : i < sorted.length), p ≤ i → key x < key sorted[i]) := by
  induction fuel generalizing lo hi with
  | zero =>
    obtain rfl : lo = hi := by omega
    exact ⟨lo, rfl, hbelow, habove⟩
  | succ fuel ih =>
    by_cases hlt : lo < hi
    · obtain ⟨mid, hmid⟩ : ∃ mid, mid = (lo + hi) / 2 := ⟨_, rfl⟩
      have hbound : mid < sorted.length := by omega
      have hcompare := h x sorted[mid] hx (hP _ (List.getElem_mem hbound))
      rw [place, if_pos hlt, ← hmid]
      simp only [List.getElem?_eq_getElem hbound, hcompare, ok_bind, decide_eq_true_eq]
      by_cases hkey : key x < key sorted[mid]
      · rw [if_pos hkey]
        exact ih (by omega) (by omega) (by omega) hbelow fun i his hmi =>
          lt_of_lt_of_le hkey (hsorted.key_le hbound his hmi)
      · rw [if_neg hkey]
        exact ih (by omega) (by omega) hhi (fun i his him =>
          le_trans (hsorted.key_le his hbound (by omega)) (not_lt.1 hkey)) habove
    · obtain rfl : lo = hi := by omega
      exact ⟨lo, by simp [place], hbelow, habove⟩

/-- Each further element is put where the keys stay in order. -/
theorem insertAll_eq_ok (h : Compares less key P) {sorted xs : List α}
    (hsorted : IsAscending key sorted) (hP : ∀ y ∈ sorted, P y) (hxs : ∀ x ∈ xs, P x) :
    ∃ ys, insertAll less sorted xs = .ok ys ∧ IsAscending key ys ∧ ys.Perm (sorted ++ xs) := by
  induction xs generalizing sorted with
  | nil => exact ⟨sorted, rfl, hsorted, by simp⟩
  | cons x xs ih =>
    obtain ⟨hx, hxs⟩ := List.forall_mem_cons.1 hxs
    obtain ⟨p, hp, hbelow, habove⟩ := place_eq_ok h hsorted hP hx
      (Nat.le_refl sorted.length) (Nat.zero_le _) (Nat.le_refl _) (by omega) (by omega)
    have hbelow : ∀ y ∈ sorted.take p, key y ≤ key x := by
      intro y hy
      obtain ⟨i, hi, rfl⟩ := List.mem_take_iff_getElem.1 hy
      exact hbelow i (by omega) (by omega)
    have habove : ∀ y ∈ sorted.drop p, key x < key y := by
      intro y hy
      obtain ⟨i, hi, rfl⟩ := List.mem_drop_iff_getElem.1 hy
      exact habove (p + i) (by omega) (by omega)
    have hperm : (sorted.take p ++ x :: sorted.drop p).Perm (x :: sorted) := by
      have hmiddle :
          (sorted.take p ++ x :: sorted.drop p).Perm (x :: (sorted.take p ++ sorted.drop p)) :=
        List.perm_middle
      rwa [List.take_append_drop] at hmiddle
    have hnew : IsAscending key (sorted.take p ++ x :: sorted.drop p) := by
      refine List.pairwise_append.2 ⟨hsorted.sublist (List.take_sublist _ _),
        List.pairwise_cons.2 ⟨fun y hy => le_of_lt (habove y hy),
          hsorted.sublist (List.drop_sublist _ _)⟩, ?_⟩
      intro y hy
      exact List.forall_mem_cons.2
        ⟨hbelow y hy, fun z hz => le_trans (hbelow y hy) (le_of_lt (habove z hz))⟩
    obtain ⟨ys, hys, hascending, hall⟩ := ih hnew
      (fun y hy => (List.mem_cons.1 (hperm.mem_iff.1 hy)).elim (fun e => e ▸ hx) (hP y)) hxs
    refine ⟨ys, by rw [insertAll, hp, ok_bind, hys], hascending, hall.trans ?_⟩
    exact (hperm.append_right xs).trans List.perm_middle.symm

/-- The sort does not fail; it gives the same elements in order of their keys. -/
theorem sort_eq_ok {xs : List α} (h : Compares less key (· ∈ xs)) :
    ∃ ys, sort less xs = .ok ys ∧ IsAscending key ys ∧ ys.Perm xs := by
  obtain ⟨run, rest, hrun, hascending, hperm⟩ := firstRun_eq_ok h fun _ hx => hx
  obtain ⟨ys, hys, hsorted, hall⟩ := insertAll_eq_ok h hascending
    (fun y hy => hperm.mem_iff.1 (List.mem_append_left _ hy))
    (fun y hy => hperm.mem_iff.1 (List.mem_append_right _ hy))
  exact ⟨ys, by rw [sort, hrun]; exact hys, hsorted, hall.trans hperm⟩

end Assay.Sorting
