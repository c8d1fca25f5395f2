import Mathlib.NumberTheory.PrimeCounting
import Assay.Prime
import Assay.Proofs.Fallible

/-!
# The sieve finds the n-th prime

`Sieved` is what holds when cell `i` is reached: the cells that are crossed out are the proper
multiples of primes below `i`. So the cell of `i` is crossed out exactly if `i` is not prime, and
both ways on from there keep the invariant. The number of the next prime is one more than the number
of primes below `i`, which tells when the n-th is reached. The loops never leave the cells before
that, since `i` stays at or below the n-th prime, and no number exceeds twice the limit.
-/

namespace Assay.Prime

variable {limit n step i j : Nat} {cells : Array Bool}

theorem fits_of_lt (h : n < 2147483648) : fits n = .ok () := if_pos h

/-- Crossing out in steps from `j` on adds the cells that are whole steps behind `j`. -/
theorem crossMultiples_eq (hstep : 0 < step) (hword : limit + step < 2147483648)
    (hsize : cells.size = limit + 1) :
    ∃ out, crossMultiples limit step j cells = .ok out ∧ out.size = limit + 1 ∧
      ∀ x ≤ limit, out[x]? = some true ↔ cells[x]? = some true ∨ j ≤ x ∧ step ∣ x - j := by
  induction hleft : limit + 1 - j using Nat.strong_induction_on generalizing j cells with
  | _ left ih =>
    rw [crossMultiples]
    by_cases hj : limit < j
    · refine ⟨cells, if_pos hj, hsize, fun x hx => ?_⟩
      have hbelow : ¬ j ≤ x := by omega
      simp [hbelow]
    · have hcell : j < cells.size := by omega
      have hset : (cells.set j true hcell).size = limit + 1 := by rw [Array.size_set, hsize]
      obtain ⟨out, hout, hsize', hcells⟩ :=
        ih (limit + 1 - (j + step)) (by omega) (j := j + step) hset rfl
      refine ⟨out, ?_, hsize', fun x hx => ?_⟩
      · rw [if_neg hj, if_neg (by omega), cross, dif_pos hcell, ok_bind, fits_of_lt (by omega)]
        exact hout
      · rw [hcells x hx, Array.getElem?_set]
        by_cases hxj : j = x
        · simp [hxj]
        · rw [if_neg hxj]
          have hnext : j + step ≤ x ∧ step ∣ x - (j + step) ↔ j ≤ x ∧ step ∣ x - j := by
            constructor
            · rintro ⟨hle, hdvd⟩
              refine ⟨by omega, ?_⟩
              have hsplit : x - j = x - (j + step) + step := by omega
              rw [hsplit]
              exact Nat.dvd_add hdvd dvd_rfl
            · rintro ⟨hle, hdvd⟩
              have hge : step ≤ x - j := Nat.le_of_dvd (by omega) hdvd
              refine ⟨by omega, ?_⟩
              rw [Nat.sub_add_eq]
              exact Nat.dvd_sub hdvd dvd_rfl
          rw [hnext]

/-- When cell `i` is reached, the proper multiples of primes below `i` are crossed out, and no other
cell. -/
structure Sieved (limit i : Nat) (cells : Array Bool) : Prop where
  size : cells.size = limit + 1
  crossed : ∀ x ≤ limit, cells[x]? = some true ↔ ∃ q, q.Prime ∧ q < i ∧ q ∣ x ∧ q < x

namespace Sieved

theorem start (limit : Nat) : Sieved limit 2 (Array.replicate (limit + 1) false) where
  size := Array.size_replicate
  crossed x hx := by
    rw [Array.getElem?_replicate, if_pos (by omega)]
    refine iff_of_false (by simp) ?_
    rintro ⟨q, hq, hlt, -⟩
    exact absurd hq.two_le (by omega)

/-- The cell of `i` tells whether `i` is prime. -/
theorem read_eq (h : Sieved limit i cells) (htwo : 2 ≤ i) (hi : i ≤ limit) :
    read cells i = .ok (decide ¬ i.Prime) := by
  have hcell : i < cells.size := by
    rw [h.size]
    omega
  have hcomposite : cells[i] = true ↔ ¬ i.Prime := by
    rw [← Option.some_inj, ← Array.getElem?_eq_getElem hcell, h.crossed i hi]
    constructor
    · rintro ⟨q, hq, hlt, hdvd, -⟩ hprime
      exact hlt.ne ((Nat.prime_dvd_prime_iff_eq hq hprime).1 hdvd)
    · intro hprime
      have hlt : i.minFac < i := (Nat.not_prime_iff_minFac_lt htwo).1 hprime
      exact ⟨i.minFac, Nat.minFac_prime (by omega), hlt, i.minFac_dvd, hlt⟩
  rw [read, Array.getElem?_eq_getElem hcell]
  exact congrArg Except.ok (by rw [Bool.eq_iff_iff, hcomposite, decide_eq_true_iff])

/-- A number that is not prime is passed over. -/
theorem pass (h : Sieved limit i cells) (hi : ¬ i.Prime) : Sieved limit (i + 1) cells where
  size := h.size
  crossed x hx := by
    rw [h.crossed x hx]
    refine exists_congr fun q => and_congr_right fun hq => and_congr_left fun _ => ?_
    have hne : q ≠ i := fun he => hi (he ▸ hq)
    omega

/-- After a prime its proper multiples are crossed out too. -/
theorem crossOut (h : Sieved limit i cells) (hi : i.Prime) (hword : limit + i < 2147483648) :
    ∃ out, crossMultiples limit i (i * 2) cells = .ok out ∧ Sieved limit (i + 1) out := by
  obtain ⟨out, hout, hsize, hcells⟩ := crossMultiples_eq (j := i * 2) hi.pos hword h.size
  refine ⟨out, hout, hsize, fun x hx => ?_⟩
  have hmultiple : i * 2 ≤ x ∧ i ∣ x - i * 2 ↔ i ∣ x ∧ i < x := by
    constructor
    · rintro ⟨hle, hdvd⟩
      have hpos := hi.pos
      exact ⟨(Nat.dvd_sub_iff_left hle (dvd_mul_right i 2)).1 hdvd, by omega⟩
    · rintro ⟨⟨k, rfl⟩, hlt⟩
      have hk : 2 ≤ k := by
        have := (lt_mul_iff_one_lt_right hi.pos).1 hlt
        omega
      exact ⟨Nat.mul_le_mul_left i hk, Nat.dvd_sub (dvd_mul_right i k) (dvd_mul_right i 2)⟩
  rw [hcells x hx, h.crossed x hx, hmultiple]
  constructor
  · rintro (⟨q, hq, hlt, hdvd⟩ | hdvd)
    exacts [⟨q, hq, by omega, hdvd⟩, ⟨i, hi, by omega, hdvd⟩]
  · rintro ⟨q, hq, hlt, hdvd⟩
    rcases Nat.lt_succ_iff_lt_or_eq.1 hlt with hlt | rfl
    exacts [.inl ⟨q, hq, hlt, hdvd⟩, .inr hdvd]

/-- From any cell up to the n-th prime on, the search finds that prime, or it reads the cell behind
the last if the prime lies beyond the limit. -/
theorem seek_eq (h : Sieved limit i cells) (hlimit : limit < 1073741824) (htwo : 2 ≤ i)
    (hlast : i ≤ limit + 1) (hi : i ≤ Nat.nth Nat.Prime n) :
    seek limit (n + 1) (Nat.count Nat.Prime i + 1) i cells =
      if Nat.nth Nat.Prime n ≤ limit then .ok (Nat.nth Nat.Prime n) else .error noCell := by
  induction hleft : limit + 1 - i generalizing i cells with
  | zero =>
    have hbehind : cells[i]? = none := Array.getElem?_eq_none (by rw [h.size]; omega)
    have hbeyond : ¬ Nat.nth Nat.Prime n ≤ limit := by omega
    rw [seek, if_neg (by omega), if_neg hbeyond, read, hbehind]
    rfl
  | succ left ih =>
    have hcount : Nat.count Nat.Prime i ≤ i := Nat.count_le _
    rw [seek, if_neg (by omega), h.read_eq htwo (by omega), ok_bind]
    by_cases hprime : i.Prime
    · simp only [hprime, not_true_eq_false, decide_false, Bool.false_eq_true, if_false,
        fits_of_lt (show Nat.count Nat.Prime i + 1 + 1 < 2147483648 by omega), ok_bind]
      by_cases hfound : Nat.count Nat.Prime i = n
      · have hnth : Nat.nth Nat.Prime n = i := by rw [← hfound, Nat.nth_count hprime]
        rw [if_pos (by omega), hnth, if_pos (by omega)]
      · have hne : i ≠ Nat.nth Nat.Prime n := by
          rintro rfl
          exact hfound (Nat.count_nth_of_infinite Nat.infinite_setOfPred_prime n)
        obtain ⟨out, hout, hsieved⟩ := h.crossOut hprime (by omega)
        have hnext : Nat.count Nat.Prime (i + 1) = Nat.count Nat.Prime i + 1 := by
          rw [Nat.count_succ, if_pos hprime]
        rw [if_neg (by omega), fits_of_lt (by omega), ok_bind, hout, ok_bind,
          fits_of_lt (by omega), ok_bind, ← hnext]
        exact ih hsieved (by omega) (by omega) (by omega) (by omega)
    · have hne : i ≠ Nat.nth Nat.Prime n := fun he => hprime (he ▸ Nat.prime_nth_prime n)
      have hnext : Nat.count Nat.Prime (i + 1) = Nat.count Nat.Prime i := by
        rw [Nat.count_succ, if_neg hprime, Nat.add_zero]
      simp only [hprime, not_false_eq_true, decide_true, if_true,
        fits_of_lt (show i + 1 < 2147483648 by omega), ok_bind]
      rw [← hnext]
      exact ih (h.pass hprime) (by omega) (by omega) (by omega) (by omega)

end Sieved

/-- The sieve with a limit below `2^30` finds the n-th prime, counted from one, if the limit is not
below it. It does so without an access outside of its cells and without a number of more than 32
bits: either would be a fault. -/
theorem upTo_finds_nth_prime {n limit : Nat} (hn : 2 ≤ n)
    (hprime : Nat.nth Nat.Prime (n - 1) ≤ limit) (hlimit : limit < 1073741824) :
    upTo limit n = .ok (Nat.nth Nat.Prime (n - 1)) := by
  have htwo : 2 ≤ Nat.nth Nat.Prime (n - 1) := (Nat.prime_nth_prime _).two_le
  have hcount : Nat.count Nat.Prime 2 = 0 := by decide
  have hseek := (Sieved.start limit).seek_eq hlimit le_rfl (by omega) htwo
  rw [hcount, if_pos hprime, Nat.sub_add_cancel (by omega)] at hseek
  rw [upTo, if_neg (by omega), fits_of_lt (by omega), ok_bind]
  exact hseek

theorem upTo_finds_eleven : Nat.nth Nat.Prime (5 - 1) ≤ 11 ∧ upTo 11 5 = .ok 11 := by
  have hnth : Nat.nth Nat.Prime (5 - 1) = 11 := Nat.nth_prime_four_eq_eleven
  have h := upTo_finds_nth_prime (n := 5) (by decide) hnth.le (by decide)
  exact ⟨hnth.le, hnth ▸ h⟩

end Assay.Prime
