import Assay.Proofs.Fallible
import Assay.Proofs.Text
import Assay.Proofs.Verdict.Wager
import Assay.Verdict.Response

/-!
# Responses on the exact scale

Which lines of a response count does not depend on the scale that its numbers are read on, and
neither does whether it can be read at all. Each line that counts overwrites what an earlier one
said about the same query, so that the last one stays. What each prediction earns is at most one and
grows or falls with its wager, and a sum of such numbers never meets an infinity upwards, so it
keeps both properties.
-/

namespace Assay

namespace Text

theorem not_mem_of_mem_cutAt {sep : Char} {cs p : List Char} (h : p ∈ cutAt sep cs) : sep ∉ p := by
  induction cs generalizing p with
  | nil =>
    rw [cutAt, List.mem_singleton] at h
    simp [h]
  | cons c cs ih =>
    obtain ⟨q, qs, hcut⟩ := List.exists_cons_of_ne_nil (cutAt_ne_nil sep cs)
    rw [cutAt, hcut] at h
    rw [hcut] at ih
    split at h
    case isTrue hc =>
      rcases List.mem_cons.1 h with rfl | h
      exacts [List.not_mem_nil, ih h]
    case isFalse hc =>
      rcases List.mem_cons.1 h with rfl | h
      · have hq := ih List.mem_cons_self
        simp [hq, Ne.symm hc]
      · exact ih (List.mem_cons_of_mem _ h)

/-- A text falls into two pieces if it has the mark once. -/
theorem cutAt_eq_pair {sep : Char} {cs p r : List Char} :
    cutAt sep cs = [p, r] ↔ cs = p ++ sep :: r ∧ sep ∉ p ∧ sep ∉ r := by
  constructor
  · intro h
    have hpieces : ∀ piece ∈ [p, r], sep ∉ piece :=
      fun piece hpiece => not_mem_of_mem_cutAt (h ▸ hpiece)
    refine ⟨?_, hpieces p (by simp), hpieces r (by simp)⟩
    have hjoin := intercalate_cutAt sep sep cs
    have hsame : (fun c => if c = sep then sep else c) = id := by
      funext c
      split
      case isTrue hc => exact hc.symm
      case isFalse => rfl
    rw [h, hsame, List.map_id] at hjoin
    rw [← hjoin]
    simp [List.intercalate_cons_cons]
  · rintro ⟨rfl, hp, hr⟩
    rw [cutAt_append r hp, cutAt_of_not_mem hr]

theorem split_eq_pair {sep : Char} {s a b : String} :
    split sep s = [a, b] ↔ s.toList = a.toList ++ sep :: b.toList ∧ sep ∉ a.toList ∧
    sep ∉ b.toList := by
  rw [← cutAt_eq_pair, split]
  constructor
  · intro h
    have hcut := congrArg (List.map String.toList) h
    simpa [List.map_map, Function.comp_def] using hcut
  · intro h
    simp [h]

end Text

namespace Prediction

variable {α β : Type} [Scale α] [Scale β]

/-- A text that is a prediction on one scale is one on every scale. -/
theorem exists_read {s : String} {p : Prediction α} (h : read s = .ok p) :
    ∃ p' : Prediction β, read s = .ok p' := by
  rw [read] at h ⊢
  split at h
  case h_1 percent _ hcut =>
    obtain ⟨x, hx, -⟩ := bind_eq_ok.1 h
    exact ⟨_, bind_eq_ok.2 ⟨x, hx, rfl⟩⟩
  case h_2 hcut =>
    obtain ⟨x, hx, -⟩ := bind_eq_ok.1 h
    exact ⟨_, bind_eq_ok.2 ⟨x, hx, rfl⟩⟩

end Prediction

namespace Response

section Reading

variable {α β : Type} {q q' t l : String} {ls : List String} {p p' : Prediction α}
  {acc out : List (String × Prediction α)}

/-- The line counts for a query: it is the query and the text of a prediction, with a semicolon
between them. -/
def Predicts (line query prediction : String) : Prop :=
  query ∈ queries ∧ ';' ∉ prediction.toList ∧ line = query ++ ";" ++ prediction

/-- The last line that counts for a query has this prediction. -/
def LastPredicts (ls : List String) (query prediction : String) : Prop :=
  ∃ before line after, ls = before ++ line :: after ∧ Predicts line query prediction ∧
    ∀ l ∈ after, ∀ t, ¬ Predicts l query t

theorem not_mem_of_mem_queries (h : q ∈ queries) : ';' ∉ q.toList := by
  have hall : queries.all fun q => !q.toList.contains ';' := by decide
  simpa using List.all_eq_true.1 hall q h

theorem line?_eq_some : line? l = some (q, t) ↔ Predicts l q t := by
  have htext : l = q ++ ";" ++ t ↔ l.toList = q.toList ++ ';' :: t.toList := by
    rw [← String.toList_inj]
    simp
  rw [Predicts, htext, line?]
  constructor
  · intro h
    split at h
    case h_1 a b hsplit =>
      split at h
      case isTrue hknown =>
        obtain ⟨rfl, rfl⟩ := Prod.mk.inj (Option.some.inj h)
        obtain ⟨hl, -, ht⟩ := Text.split_eq_pair.1 hsplit
        exact ⟨by simpa using hknown, ht, hl⟩
      case isFalse => cases h
    case h_2 => cases h
  · rintro ⟨hq, ht, hl⟩
    have hsplit : Text.split ';' l = [q, t] :=
      Text.split_eq_pair.2 ⟨hl, not_mem_of_mem_queries hq, ht⟩
    simp [hsplit, hq]

theorem lastPredicts_cons : LastPredicts (l :: ls) q t ↔
    LastPredicts ls q t ∨ Predicts l q t ∧ ∀ l' ∈ ls, ∀ t', ¬ Predicts l' q t' := by
  constructor
  · rintro ⟨before, line, after, hls, hline, hafter⟩
    cases before with
    | nil =>
      obtain ⟨rfl, rfl⟩ := List.cons.inj hls
      exact .inr ⟨hline, hafter⟩
    | cons first before =>
      obtain ⟨rfl, rfl⟩ := List.cons.inj hls
      exact .inl ⟨before, line, after, rfl, hline, hafter⟩
  · rintro (⟨before, line, after, rfl, hline, hafter⟩ | ⟨hline, hafter⟩)
    · exact ⟨l :: before, line, after, rfl, hline, hafter⟩
    · exact ⟨[], l, ls, rfl, hline, hafter⟩

theorem keys_put : (put q p acc).map Prod.fst =
    if q ∈ acc.map Prod.fst then acc.map Prod.fst else acc.map Prod.fst ++ [q] := by
  induction acc with
  | nil => simp [put]
  | cons e acc ih =>
    rw [put]
    by_cases he : e.1 = q
    · simp [he]
    · rw [if_neg he, List.map_cons, ih]
      by_cases hq : q ∈ acc.map Prod.fst
      · simp [hq]
      · simp [hq, Ne.symm he]

theorem nodup_put (hacc : (acc.map Prod.fst).Nodup) : ((put q p acc).map Prod.fst).Nodup := by
  rw [keys_put]
  split
  case isTrue => exact hacc
  case isFalse hq =>
    refine List.nodup_append.2 ⟨hacc, List.nodup_singleton q, ?_⟩
    rintro x hx _ hy rfl
    exact hq (List.mem_singleton.1 hy ▸ hx)

theorem mem_put (hacc : (acc.map Prod.fst).Nodup) :
    (q', p') ∈ put q p acc ↔ q' = q ∧ p' = p ∨ q' ≠ q ∧ (q', p') ∈ acc := by
  induction acc with
  | nil => simp [put]
  | cons e acc ih =>
    obtain ⟨hnew, hacc⟩ := List.nodup_cons.1 hacc
    rw [put]
    by_cases he : e.1 = q
    · obtain ⟨k, old⟩ := e
      obtain rfl : k = q := he
      rw [if_pos rfl]
      obtain rfl | hq := eq_or_ne q' k
      · have hnone : (q', p') ∉ acc := fun h => hnew (List.mem_map.2 ⟨_, h, rfl⟩)
        simp [hnone]
      · simp [hq]
    · rw [if_neg he, List.mem_cons, ih hacc, List.mem_cons]
      obtain rfl | hq := eq_or_ne q' q
      · have hne : (q', p') ≠ e := fun h => he (h ▸ rfl)
        simp [hne]
      · simp [hq]

variable [Scale α]

/-- What reading lines makes of the predictions that are there already. -/
structure ReadsTo (ls : List String) (acc out : List (String × Prediction α)) : Prop where
  nodup : (out.map Prod.fst).Nodup
  known : ∀ q ∈ out.map Prod.fst, q ∈ queries ∨ q ∈ acc.map Prod.fst
  mem_iff : ∀ q p, (q, p) ∈ out ↔ (∃ t, LastPredicts ls q t ∧ Prediction.read t = .ok p) ∨
    (∀ l ∈ ls, ∀ t, ¬ Predicts l q t) ∧ (q, p) ∈ acc

theorem readLines_readsTo (hacc : (acc.map Prod.fst).Nodup) (h : readLines ls acc = .ok out) :
    ReadsTo ls acc out := by
  induction ls generalizing acc with
  | nil =>
    obtain rfl := Except.ok.inj h
    refine ⟨hacc, fun q hq => .inr hq, fun q p => ?_⟩
    have hnone : ∀ t, ¬ LastPredicts [] q t := by
      rintro t ⟨before, line, after, hls, -⟩
      simp at hls
    simp [hnone]
  | cons l ls ih =>
    rw [readLines] at h
    cases hline : line? l with
    | none =>
      have hnone : ∀ q t, ¬ Predicts l q t := by
        intro q t hp
        rw [line?_eq_some.2 hp] at hline
        cases hline
      rw [hline] at h
      obtain ⟨hnodup, hknown, hmem⟩ := ih hacc h
      refine ⟨hnodup, hknown, fun q p => ?_⟩
      rw [hmem]
      simp [lastPredicts_cons, hnone]
    | some e =>
      obtain ⟨q₀, t₀⟩ := e
      have hpredicts : ∀ q t, Predicts l q t ↔ q = q₀ ∧ t = t₀ := by
        intro q t
        rw [← line?_eq_some, hline, Option.some_inj, Prod.mk.injEq, eq_comm, eq_comm (a := t₀)]
      rw [hline] at h
      obtain ⟨p₀, hread, h⟩ := bind_eq_ok.1 h
      obtain ⟨hnodup, hknown, hmem⟩ := ih (nodup_put hacc) h
      refine ⟨hnodup, fun q hq => ?_, fun q p => ?_⟩
      · have hq₀ : q₀ ∈ queries := ((hpredicts q₀ t₀).2 ⟨rfl, rfl⟩).1
        have hkeys := hknown q hq
        rw [keys_put] at hkeys
        split at hkeys
        case isTrue => exact hkeys
        case isFalse =>
          rw [List.mem_append, List.mem_singleton] at hkeys
          rcases hkeys with hq | hq | rfl
          exacts [.inl hq, .inr hq, .inl hq₀]
      · rw [hmem, mem_put hacc]
        simp only [lastPredicts_cons, hpredicts, List.mem_cons, forall_eq_or_imp]
        obtain rfl | hq := eq_or_ne q q₀
        · constructor
          · rintro (⟨t, hlast, ht⟩ | ⟨hnone, ⟨-, rfl⟩ | ⟨hne, -⟩⟩)
            · exact .inl ⟨t, .inl hlast, ht⟩
            · exact .inl ⟨t₀, .inr ⟨⟨rfl, rfl⟩, hnone⟩, hread⟩
            · exact absurd rfl hne
          · rintro (⟨t, hlast | ⟨⟨-, rfl⟩, hnone⟩, ht⟩ | ⟨⟨hl, -⟩, -⟩)
            · exact .inl ⟨t, hlast, ht⟩
            · exact .inr ⟨hnone, .inl ⟨rfl, Except.ok.inj (ht.symm.trans hread)⟩⟩
            · exact absurd ⟨rfl, rfl⟩ (hl t₀)
        · simp [hq]

variable [Scale β]

theorem exists_readLines {acc' : List (String × Prediction β)}
    (hkeys : acc'.map Prod.fst = acc.map Prod.fst) (h : readLines ls acc = .ok out) :
    ∃ out' : List (String × Prediction β), readLines ls acc' = .ok out' ∧
      out'.map Prod.fst = out.map Prod.fst := by
  induction ls generalizing acc acc' with
  | nil =>
    obtain rfl := Except.ok.inj h
    exact ⟨acc', rfl, hkeys⟩
  | cons l ls ih =>
    rw [readLines] at h ⊢
    cases hline : line? l with
    | none =>
      rw [hline] at h
      exact ih hkeys h
    | some e =>
      rw [hline] at h
      obtain ⟨p, hread, h⟩ := bind_eq_ok.1 h
      obtain ⟨p', hread'⟩ := Prediction.exists_read (β := β) hread
      have hput : (put e.1 p' acc').map Prod.fst = (put e.1 p acc).map Prod.fst := by
        rw [keys_put, keys_put, hkeys]
      obtain ⟨out', hout', hsame⟩ := ih hput h
      exact ⟨out', bind_eq_ok.2 ⟨p', hread', hout'⟩, hsame⟩

/-- A response that can be read on one scale can be read on every scale, and has the same queries
there. -/
theorem exists_read {s : String} {r : Response α} (h : read s = .ok r) :
    ∃ r' : Response β, read s = .ok r' ∧
      r'.predictions.map Prod.fst = r.predictions.map Prod.fst := by
  obtain ⟨out, hout, hr⟩ := bind_eq_ok.1 h
  obtain rfl := Except.ok.inj hr
  have hnil : ([] : List (String × Prediction β)).map Prod.fst =
      ([] : List (String × Prediction α)).map Prod.fst := rfl
  obtain ⟨out', hout', hsame⟩ := exists_readLines hnil hout
  exact ⟨⟨out'⟩, bind_eq_ok.2 ⟨out', hout', rfl⟩, hsame⟩

end Reading

section Scoring

variable {q : String} {w w' : Exact} {predictions : List (String × Prediction Exact)}
  {correct : List String} {xs ys : List Exact}

/-- What an entry earns. -/
def earned (correct : List String) (e : String × Prediction Exact) : Exact :=
  e.2.score (correct.contains e.1)

theorem score_eq_sum (r : Response Exact) (correct : List String) :
    r.score correct = (r.predictions.map (earned correct)).sum := by
  rw [List.sum_eq_foldl, List.foldl_map, score, Exact.ofNat_eq, Nat.cast_zero]
  rfl

theorem sum_le_length (h : ∀ x ∈ xs, x ≤ .rational 1) : xs.sum ≤ .rational xs.length := by
  induction xs with
  | nil => exact Exact.le_self nofun
  | cons x xs ih =>
    obtain ⟨hx, hxs⟩ := List.forall_mem_cons.1 h
    have hlength : Exact.rational (x :: xs).length = .rational 1 + .rational xs.length := by
      rw [List.length_cons, Nat.cast_succ, add_comm]
      rfl
    rw [List.sum_cons, hlength]
    exact Exact.add_le_add_of_ne_infinity hx (ih hxs) nofun nofun

theorem sum_ne_infinity (h : ∀ x ∈ xs, x ≤ .rational 1) : xs.sum ≠ .infinity :=
  Exact.ne_infinity_of_le (sum_le_length h) nofun

theorem sum_ne_nan (h : ∀ x ∈ xs, x ≤ .rational 1) : xs.sum ≠ .nan :=
  (Exact.ne_nan_of_le (sum_le_length h)).1

/-- A sum of numbers that are at most one grows with each of them. -/
theorem sum_le_sum_of_le {x x' : Exact} (hxs : ∀ y ∈ xs, y ≤ .rational 1)
    (hys : ∀ y ∈ ys, y ≤ .rational 1) (h : x ≤ x') (hx' : x' ≤ .rational 1) :
    (xs ++ x :: ys).sum ≤ (xs ++ x' :: ys).sum := by
  have hx'i : x' ≠ .infinity := Exact.ne_infinity_of_le hx' nofun
  have hrest : x + ys.sum ≤ x' + ys.sum :=
    Exact.add_le_add_of_ne_infinity h (Exact.le_self (sum_ne_nan hys)) hx'i (sum_ne_infinity hys)
  have hresti : (x' :: ys).sum ≠ .infinity := sum_ne_infinity (List.forall_mem_cons.2 ⟨hx', hys⟩)
  rw [List.sum_cons] at hresti
  rw [List.sum_append, List.sum_append, List.sum_cons, List.sum_cons]
  exact Exact.add_le_add_of_ne_infinity (Exact.le_self (sum_ne_nan hxs)) hrest
    (sum_ne_infinity hxs) hresti

theorem exists_put_eq (q : String) (predictions : List (String × Prediction Exact)) :
    ∃ before after, (∀ e ∈ before ++ after, e ∈ predictions) ∧
      ∀ p, put q p predictions = before ++ (q, p) :: after := by
  induction predictions with
  | nil => exact ⟨[], [], by simp, fun p => rfl⟩
  | cons e predictions ih =>
    by_cases he : e.1 = q
    · refine ⟨[], predictions, fun x hx => List.mem_cons_of_mem _ hx, fun p => ?_⟩
      rw [put, if_pos he, he]
      rfl
    · obtain ⟨before, after, hmem, hput⟩ := ih
      refine ⟨e :: before, after, fun x hx => ?_, fun p => ?_⟩
      · rcases List.mem_cons.1 hx with rfl | hx
        exacts [List.mem_cons_self, List.mem_cons_of_mem _ (hmem x hx)]
      · rw [put, if_neg he, hput]
        rfl

/-- The response with another wager on a query. -/
def wagering (r : Response Exact) (query : String) (w : Exact) : Response Exact :=
  ⟨put query ⟨w⟩ r.predictions⟩

theorem score_wagering_le {r : Response Exact}
    (hr : ∀ e ∈ r.predictions, earned correct e ≤ .rational 1)
    (h : earned correct (q, ⟨w⟩) ≤ earned correct (q, ⟨w'⟩))
    (hone : earned correct (q, ⟨w'⟩) ≤ .rational 1) :
    (r.wagering q w).score correct ≤ (r.wagering q w').score correct := by
  obtain ⟨before, after, hmem, hput⟩ := exists_put_eq q r.predictions
  have hsmall : ∀ {es : List (String × Prediction Exact)}, (∀ e ∈ es, e ∈ before ++ after) →
      ∀ x ∈ es.map (earned correct), x ≤ .rational 1 := by
    intro es hes x hx
    obtain ⟨e, he, rfl⟩ := List.mem_map.1 hx
    exact hr e (hmem e (hes e he))
  rw [score_eq_sum, score_eq_sum, wagering, wagering, hput, hput, List.map_append, List.map_append,
    List.map_cons, List.map_cons]
  exact sum_le_sum_of_le (hsmall fun e he => List.mem_append_left _ he)
    (hsmall fun e he => List.mem_append_right _ he) h hone

end Scoring

/-- A text that is read as a response is read as one on the exact scale too. If all its wagers have
a value, it has at most one prediction for each query, the one of the last line that counts for it.
Its score is what these earn together: at most one each, so at most as much as there are
predictions, which are at most six. The score grows with the wager on an outcome that is correct,
and falls with the wager on one that is not. -/
theorem no_response_beats_scale {s : String} {run : Response Float} (h : parse s = .ok run) :
    ∃ r : Response Exact, read s = .ok r ∧
      r.predictions.map Prod.fst = run.predictions.map Prod.fst ∧
      ((∀ e ∈ r.predictions, e.2.wager ≠ .nan) → ∀ correct : List String,
        (r.predictions.map Prod.fst).Nodup ∧ (∀ e ∈ r.predictions, e.1 ∈ queries) ∧
        (∀ q p, (q, p) ∈ r.predictions ↔ ∃ t, LastPredicts (Text.lines s) q t ∧
          Prediction.read t = .ok p) ∧
        r.score correct = (r.predictions.map fun e => e.2.score (correct.contains e.1)).sum ∧
        (∀ e ∈ r.predictions, e.2.score (correct.contains e.1) ≤ .rational 1) ∧
        r.score correct ≤ .rational r.predictions.length ∧ r.predictions.length ≤ 6 ∧
        r.score correct ≤ .rational 6 ∧
        ∀ e ∈ r.predictions, ∀ w w' : Exact, w ≤ w' →
          if e.1 ∈ correct then
            (⟨w⟩ : Prediction Exact).score true ≤ (⟨w'⟩ : Prediction Exact).score true ∧
              (r.wagering e.1 w).score correct ≤ (r.wagering e.1 w').score correct
          else
            (⟨w'⟩ : Prediction Exact).score false ≤ (⟨w⟩ : Prediction Exact).score false ∧
              (r.wagering e.1 w').score correct ≤ (r.wagering e.1 w).score correct) := by
  obtain ⟨r, hr, hkeys⟩ := exists_read (β := Exact) h
  obtain ⟨out, hout, heq⟩ := bind_eq_ok.1 hr
  obtain rfl := Except.ok.inj heq
  have hnil : (([] : List (String × Prediction Exact)).map Prod.fst).Nodup := List.nodup_nil
  obtain ⟨hnodup, hknown, hmem⟩ := readLines_readsTo hnil hout
  refine ⟨⟨out⟩, hr, hkeys, fun hvalue correct => ?_⟩
  have hqueries : ∀ q ∈ out.map Prod.fst, q ∈ queries :=
    fun q hq => (hknown q hq).resolve_right List.not_mem_nil
  have hone : ∀ e ∈ out, earned correct e ≤ .rational 1 :=
    fun e he => Prediction.score_le_one (hvalue e he) _
  have hscore : (⟨out⟩ : Response Exact).score correct ≤ .rational out.length := by
    rw [score_eq_sum, ← List.length_map (earned correct)]
    refine sum_le_length fun x hx => ?_
    obtain ⟨e, he, rfl⟩ := List.mem_map.1 hx
    exact hone e he
  have hsix : out.length ≤ 6 := by
    have hlength := (hnodup.subperm hqueries).length_le
    rwa [List.length_map] at hlength
  refine ⟨hnodup, fun e he => hqueries _ (List.mem_map_of_mem he), fun q p => ?_, score_eq_sum _ _,
    hone, hscore, hsix, Exact.le_rational_trans hscore (by exact_mod_cast hsix),
    fun e _ w w' hw => ?_⟩
  · rw [hmem]
    simp
  · obtain ⟨hwn, hwn'⟩ := Exact.ne_nan_of_le hw
    split
    case isTrue hcorrect =>
      have hscore := Prediction.score_mono hw
      refine ⟨hscore, score_wagering_le hone ?_ (Prediction.score_le_one hwn' _)⟩
      simpa [earned, hcorrect] using hscore
    case isFalse hwrong =>
      have hscore := Prediction.score_anti hw
      refine ⟨hscore, score_wagering_le hone ?_ (Prediction.score_le_one hwn _)⟩
      simpa [earned, hwrong] using hscore

/-- A response with a query that is answered twice, lines that do not count, and a probability above
one. -/
def boast : String := "ok;10%\nno line\nok;inf\nfault;1\n*;150%"

theorem boast_stays_on_scale :
    ∃ run, parse boast = .ok run ∧ ∃ r : Response Exact, read boast = .ok r ∧
      r.predictions = [("ok", ⟨.infinity⟩), ("*", ⟨.rational (-2)⟩)] ∧
      r.score ["ok"] ≤ .rational 2 := by
  have hpercent : Scale.div (Scale.ofLiteral (.finite false 150 0)) (Scale.ofNat 100) =
      Exact.rational (3 / 2) := by
    have hliteral : Scale.ofLiteral (.finite false 150 0) = Exact.rational 150 := by
      show Exact.rational (if false = true then -((150 : Nat) * 10 ^ (0 : Int) : ℚ)
        else (150 : Nat) * 10 ^ (0 : Int)) = _
      norm_num
    rw [hliteral, Exact.ofNat_eq, Exact.div_rational _ (by norm_num)]
    norm_num
  have hodds : Prediction.ofProbability (Exact.rational (3 / 2)) = ⟨.rational (-2)⟩ := by
    rw [Prediction.ofProbability_rational, if_neg (by norm_num),
      Prediction.wagerOf_rational (by norm_num), Prediction.odds]
    norm_num
  have hread : (read boast : Except Fault (Response Exact)) =
      .ok ⟨[("ok", ⟨.infinity⟩), ("*", ⟨.rational (-2)⟩)]⟩ := by
    have hlines : Text.lines boast = ["ok;10%", "no line", "ok;inf", "fault;1", "*;150%"] := rfl
    rw [← hodds, ← hpercent, read, hlines]
    rfl
  obtain ⟨run, hrun⟩ : ∃ run, parse boast = .ok run := ⟨_, rfl⟩
  obtain ⟨r, hr, -, hscale⟩ := no_response_beats_scale hrun
  obtain rfl := Except.ok.inj (hr.symm.trans hread)
  obtain ⟨-, -, -, -, -, hbound, -⟩ := hscale (by simp) ["ok"]
  exact ⟨run, hrun, _, hr, rfl, hbound⟩

end Response

end Assay
