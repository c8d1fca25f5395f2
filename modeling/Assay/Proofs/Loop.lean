import Assay.Fault

/-!
# Loops

A loop makes rounds until it is done or a round fails. `Ends n s r`: from the state `s` it ends
after `n` rounds, the failed one included, with the result `r`. A measure that goes down in every
round bounds the number of rounds.
-/

namespace Assay

structure Loop (σ : Type) where
  isDone : σ → Bool
  round : σ → Except Fault σ

namespace Loop

variable {σ : Type}

inductive Ends (l : Loop σ) : Nat → σ → Except Fault σ → Prop
  | done {s : σ} (h : l.isDone s = true) : Ends l 0 s (.ok s)
  | failed {s : σ} {e : Fault} (hmore : l.isDone s = false) (h : l.round s = .error e) :
      Ends l 1 s (.error e)
  | next {n : Nat} {s t : σ} {r : Except Fault σ} (hmore : l.isDone s = false)
      (h : l.round s = .ok t) (hrest : Ends l n t r) : Ends l (n + 1) s r

def Halts (l : Loop σ) (s : σ) : Prop := ∃ n r, l.Ends n s r

/-- The states that a loop comes to. -/
inductive Reaches (l : Loop σ) : σ → σ → Prop
  | refl (s : σ) : Reaches l s s
  | head {s t u : σ} (hmore : l.isDone s = false) (h : l.round s = .ok t)
      (hrest : Reaches l t u) : Reaches l s u

/-- The value is the result of the loop, which comes after at most `bound` rounds, or says that the
loop never ends. -/
structure Gives {α : Type} (l : Loop σ) (bound : Nat) (s : σ) (result : σ → α)
    (value : Except Fault α) : Prop where
  result : l.Halts s → ∃ n ≤ bound, ∃ r, l.Ends n s r ∧ value = r.map result
  endless : ¬ l.Halts s → value = .error .endless

variable {l : Loop σ} {s t : σ}

theorem not_halts_of_stays (stays : σ → Prop) (hmore : ∀ s, stays s → l.isDone s = false)
    (hround : ∀ s, stays s → ∃ t, l.round s = .ok t ∧ stays t) (hs : stays s) : ¬ l.Halts s := by
  rintro ⟨n, r, h⟩
  induction h with
  | done h =>
    rw [hmore _ hs] at h
    cases h
  | failed _ h =>
    obtain ⟨t, ht, -⟩ := hround _ hs
    rw [h] at ht
    cases ht
  | next _ h _ ih =>
    obtain ⟨t, ht, hstays⟩ := hround _ hs
    obtain rfl := Except.ok.inj (h.symm.trans ht)
    exact ih hstays

theorem more_of_not_halts (h : ¬ l.Halts s) : l.isDone s = false := by
  rw [← Bool.not_eq_true]
  exact fun hdone => h ⟨0, .ok s, .done hdone⟩

theorem halts_of_round (hmore : l.isDone s = false) (hround : l.round s = .ok t) (h : l.Halts t) :
    l.Halts s := by
  obtain ⟨n, r, h⟩ := h
  exact ⟨n + 1, r, .next hmore hround h⟩

/-- A state that the loop comes to has the same end before it. -/
theorem Reaches.halts (h : l.Reaches s t) (hs : l.Halts s) : l.Halts t := by
  induction h with
  | refl s => exact hs
  | head hmore hround _ ih =>
    obtain ⟨n, r, hends⟩ := hs
    refine ih ?_
    cases hends with
    | done hdone =>
      rw [hmore] at hdone
      cases hdone
    | failed _ herror =>
      rw [hround] at herror
      cases herror
    | next _ hround' hrest =>
      obtain rfl := Except.ok.inj (hround.symm.trans hround')
      exact ⟨_, _, hrest⟩

/-- A loop ends if a measure goes down in every round, and keeps what every round keeps. -/
theorem ends_of_measure (μ : σ → Nat) (inv : σ → Prop)
    (hpos : ∀ s, inv s → l.isDone s = false → 0 < μ s)
    (hround : ∀ s t, inv s → l.isDone s = false → l.round s = .ok t → inv t ∧ μ t < μ s)
    (hs : inv s) :
    ∃ n ≤ μ s, ∃ r, l.Ends n s r ∧ ∀ t, r = .ok t → inv t := by
  induction hμ : μ s using Nat.strongRecOn generalizing s with
  | ind m ih =>
    subst hμ
    cases hdone : l.isDone s with
    | true => exact ⟨0, Nat.zero_le _, .ok s, .done hdone, fun t ht => Except.ok.inj ht ▸ hs⟩
    | false =>
      cases hnext : l.round s with
      | error e =>
        exact ⟨1, hpos s hs hdone, .error e, .failed hdone hnext, fun t ht => by cases ht⟩
      | ok t =>
        obtain ⟨ht, hlt⟩ := hround s t hs hdone hnext
        obtain ⟨n, hn, r, hends, hinv⟩ := ih (μ t) hlt ht rfl
        exact ⟨n + 1, Nat.lt_of_le_of_lt hn hlt, r, .next hdone hnext hends, hinv⟩

/-- A loop over a list ends if every round leaves less of the list. -/
theorem ends_of_shorter {α : Type} (text : σ → List α) (inv : σ → Prop)
    (hdone : ∀ s, l.isDone s = (text s).isEmpty)
    (hround : ∀ s t, inv s → l.isDone s = false → l.round s = .ok t → inv t ∧ (text t).length <
      (text s).length) (hs : inv s) : ∃ n ≤ (text s).length, ∃ r, l.Ends n s r := by
  have hpos : ∀ s, inv s → l.isDone s = false → 0 < (text s).length := by
    intro s _ hmore
    rw [hdone, List.isEmpty_eq_false_iff] at hmore
    exact List.length_pos_iff.2 hmore
  obtain ⟨n, hn, r, hends, -⟩ := ends_of_measure (fun s => (text s).length) inv hpos hround hs
  exact ⟨n, hn, r, hends⟩

/-- A value that no round changes is the result of the loop. -/
theorem Ends.value {α : Type} {n : Nat} {r : Except Fault σ} (value : σ → Except Fault α)
    (result : σ → α) (inv : σ → Prop)
    (hdone : ∀ s, inv s → l.isDone s = true → value s = .ok (result s))
    (hfailed : ∀ s e, inv s → l.isDone s = false → l.round s = .error e → value s = .error e)
    (hround : ∀ s t, inv s → l.isDone s = false → l.round s = .ok t → inv t ∧ value t = value s)
    (h : l.Ends n s r) (hs : inv s) : value s = r.map result := by
  induction h with
  | done h => exact hdone _ hs h
  | failed hmore h => exact hfailed _ _ hs hmore h
  | next hmore h _ ih =>
    obtain ⟨ht, heq⟩ := hround _ _ hs hmore h
    exact heq.symm.trans (ih ht)

end Loop

end Assay
