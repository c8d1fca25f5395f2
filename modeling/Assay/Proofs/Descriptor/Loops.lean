import Assay.Corpus.Generate
import Assay.Proofs.Descriptor.Rendered
import Assay.Proofs.Loop

/-!
# The loops over descriptors

Three loops go over the parameters of a method. A round takes something from the front of the text,
and leaves the text as it is just if an object stands there that has no end (`IsOpen`). The loop
that reads parameters never gets past such an object, unless its constructor can not be read. The
loop that takes letters for a corpus gives up when it runs out of names, and the loop that makes
objects of inputs gives up at the first place that an input does not have.
-/

namespace Assay

namespace Text

theorem position_eq_neg_one {x : Char} {w cs : List Char} (h : x ∉ cs) :
    position (String.ofList (x :: w)) cs = -1 := by
  have hnone : cutAtWord? (x :: w) cs = none := by
    rw [← Option.not_isSome_iff_eq_none, isSome_cutAtWord?_iff]
    exact fun hpiece => h (hpiece.subset List.mem_cons_self)
  rw [position, String.toList_ofList, hnone]

/-- What stands behind the first semicolon; the whole text if there is none. -/
def behindStop (cs : List Char) : List Char := slice (position ";" cs + 1) cs.length cs

theorem behindStop_of_not_mem {cs : List Char} (h : ';' ∉ cs) : behindStop cs = cs := by
  have hpos : position ";" cs = -1 := position_eq_neg_one (w := []) h
  exact slice_eq (p := []) (r := []) (by simp) (by simp [hpos]) (by simp)

theorem behindStop_append {p : List Char} (r : List Char) (h : ';' ∉ p) :
    behindStop (p ++ ';' :: r) = r := by
  have hpos : position ";" (p ++ ';' :: r) = p.length := position_append (w := []) r h
  exact slice_eq (p := p ++ [';']) (r := []) (by simp) (by simp [hpos]) (by simp; omega)

theorem length_behindStop_lt {cs : List Char} (h : ';' ∈ cs) :
    (behindStop cs).length < cs.length := by
  obtain ⟨p, r, rfl, hp⟩ := List.eq_append_cons_of_mem h
  rw [behindStop_append r hp, List.length_append, List.length_cons]
  omega

end Text

namespace Parameter

/-- An object without its end stands at the front. -/
structure IsOpen (text : List Char) : Prop where
  front : text.head? = some 'L'
  unended : ';' ∉ text

/-- In every round the text gets shorter, except that it stays as it is if an open object stands at
its front. -/
def Shortens {σ : Type} (l : Loop σ) (text : σ → List Char) : Prop :=
  ∀ s t, l.isDone s = false → l.round s = .ok t →
    (IsOpen (text s) → text t = text s) ∧ (¬ IsOpen (text s) → (text t).length < (text s).length)

theorem shortens_object (cs : List Char) :
    (IsOpen ('L' :: cs) → Text.behindStop ('L' :: cs) = 'L' :: cs) ∧
      (¬ IsOpen ('L' :: cs) → (Text.behindStop ('L' :: cs)).length < ('L' :: cs).length) := by
  refine ⟨fun h => Text.behindStop_of_not_mem h.unended, fun h => Text.length_behindStop_lt ?_⟩
  by_contra hmem
  exact h ⟨rfl, hmem⟩

theorem not_isOpen {c : Char} (hc : c ≠ 'L') (cs : List Char) : ¬ IsOpen (c :: cs) :=
  fun h => hc (Option.some.inj h.front)

section Shortening

variable {σ : Type} {l : Loop σ} {text : σ → List Char} {s : σ}

/-- A loop that shortens its text ends, unless it comes to an open object and gets past the round
there. -/
theorem ends_of_shortens (hshort : Shortens l text) (hdone : ∀ s, l.isDone s = (text s).isEmpty)
    (hopen : ∀ t, l.Reaches s t → IsOpen (text t) → ∃ e, l.round t = .error e) :
    ∃ n ≤ (text s).length, ∃ r, l.Ends n s r := by
  refine Loop.ends_of_shorter text
    (fun s => ∀ u, l.Reaches s u → IsOpen (text u) → ∃ e, l.round u = .error e) hdone ?_ hopen
  intro s t hs hmore hround
  refine ⟨fun u hu => hs u (.head hmore hround hu), (hshort s t hmore hround).2 fun hfront => ?_⟩
  obtain ⟨e, he⟩ := hs s (.refl s) hfront
  rw [hround] at he
  cases he

end Shortening

/-! ### Reading parameters -/

/-- The text that is left, and what was taken from its front. -/
structure Scan (α : Type) where
  text : List Char
  taken : List α

/-- The loop that takes one thing after the other from the front of a text. -/
def scanner {α : Type} (take : List Char → Except Fault (α × List Char)) : Loop (Scan α) where
  isDone s := s.text.isEmpty
  round s := (take s.text).map fun r => ⟨r.2, s.taken ++ [r.1]⟩

section Scanner

variable {α : Type} {take : List Char → Except Fault (α × List Char)} {s t : Scan α}

theorem scanner_round_eq_ok : (scanner take).round s = .ok t ↔
    ∃ x, take s.text = .ok (x, t.text) ∧ t.taken = s.taken ++ [x] := by
  refine map_eq_ok.trans ⟨?_, ?_⟩
  · rintro ⟨⟨x, rest⟩, htake, rfl⟩
    exact ⟨x, htake, rfl⟩
  · rintro ⟨x, htake, htaken⟩
    obtain ⟨text, taken⟩ := t
    exact ⟨(x, text), htake, by rw [← htaken]⟩

theorem exists_cons_of_more (h : (scanner take).isDone s = false) : ∃ c cs, s.text = c :: cs :=
  List.exists_cons_of_ne_nil (List.isEmpty_eq_false_iff.1 h)

/-- A function that takes from the text what the loop takes gives the result of the loop. -/
theorem scanner_value {f : List Char → Except Fault (List α)} (hnil : f [] = .ok [])
    (hcons : ∀ c cs, f (c :: cs) = take (c :: cs) >>= fun r => (f r.2).map (r.1 :: ·))
    {n : Nat} {r : Except Fault (Scan α)} (h : (scanner take).Ends n s r) :
    (f s.text).map (s.taken ++ ·) = r.map Scan.taken := by
  refine h.value (fun s => (f s.text).map (s.taken ++ ·)) Scan.taken (fun _ => True)
    ?_ ?_ ?_ trivial
  · intro s _ hdone
    rw [List.isEmpty_iff.1 hdone, hnil]
    exact congrArg Except.ok (List.append_nil s.taken)
  · intro s e _ hmore hround
    obtain ⟨c, cs, htext⟩ := exists_cons_of_more hmore
    have htake := eq_error_of_map hround
    rw [htext] at htake ⊢
    rw [hcons, htake]
    rfl
  · intro s t _ hmore hround
    obtain ⟨c, cs, htext⟩ := exists_cons_of_more hmore
    obtain ⟨x, htake, htaken⟩ := scanner_round_eq_ok.1 hround
    rw [htext] at htake ⊢
    rw [hcons, htake, htaken]
    refine ⟨trivial, ?_⟩
    cases hrest : f t.text with
    | error e => simp [Except.map, hrest]
    | ok xs => simp [Except.map, hrest]

end Scanner

/-- The type at the front of the text of a constructor, and the rest. -/
def nextType : List Char → Except Fault (String × List Char)
  | [] => .error (.outOfRange "string index out of range")
  | '[' :: [] => .error (.outOfRange "string index out of range")
  | '[' :: c :: cs => .ok (String.ofList ['[', c], cs)
  | c :: cs => .ok (String.singleton c, cs)

theorem nextType_letter {c : Char} (h : c ≠ '[') (cs : List Char) :
    nextType (c :: cs) = .ok (String.singleton c, cs) := by
  rw [nextType]
  · rintro rfl
    exact absurd rfl h
  · intro _ _ hc
    exact absurd hc h

theorem nextType_shortens {text : List Char} {r : String × List Char} (h : nextType text = .ok r) :
    r.2.length < text.length := by
  unfold nextType at h
  split at h
  · cases h
  · cases h
  · rw [← Except.ok.inj h]
    simp only [List.length_cons]
    omega
  · rw [← Except.ok.inj h]
    simp only [List.length_cons]
    omega

theorem initLetters_cons (c : Char) (cs : List Char) : initLetters (c :: cs) =
    nextType (c :: cs) >>= fun r => (initLetters r.2).map (r.1 :: ·) := by
  by_cases hc : c = '['
  · subst hc
    cases cs with
    | nil => rfl
    | cons d cs => rfl
  · rw [initLetters_letter hc, nextType_letter hc]
    rfl

def building : Loop (Scan String) := scanner nextType

theorem building_shortens {s t : Scan String} (h : building.round s = .ok t) :
    t.text.length < s.text.length := by
  obtain ⟨x, htake, -⟩ := scanner_round_eq_ok.1 h
  exact nextType_shortens htake

theorem building_ends (text : List Char) :
    ∃ n ≤ text.length, ∃ r, building.Ends n ⟨text, []⟩ r ∧ initLetters text = r.map Scan.taken := by
  obtain ⟨n, hn, r, hends⟩ :=
    Loop.ends_of_shorter (l := building) (s := ⟨text, []⟩) Scan.text (fun _ => True) (fun _ => rfl)
    (fun s t _ _ hround => ⟨trivial, building_shortens hround⟩) trivial
  refine ⟨n, hn, r, hends, ?_⟩
  have hvalue : (initLetters text).map ([] ++ ·) = r.map Scan.taken :=
    scanner_value (f := initLetters) rfl initLetters_cons hends
  rw [← hvalue]
  cases initLetters text <;> rfl

/-- The loop over the parameters of a method. -/
def reading : Loop (Scan Parameter) := scanner next

theorem next_object_text (cs : List Char) {r : Parameter × List Char}
    (h : next ('L' :: cs) = .ok r) :
    r.2 = Text.behindStop ('L' :: cs) := by
  rw [next] at h
  obtain ⟨init, -, heq⟩ := bind_eq_ok.1 h
  rw [← Except.ok.inj heq]
  rfl

theorem next_shortens {text : List Char} {r : Parameter × List Char} (h : next text = .ok r) :
    (IsOpen text → r.2 = text) ∧ (¬ IsOpen text → r.2.length < text.length) := by
  fun_cases next text with
  | case1 => cases h
  | case2 cs =>
    rw [next_object_text cs h]
    exact shortens_object cs
  | case3 => cases h
  | case4 c cs =>
    rw [← Except.ok.inj h]
    exact ⟨fun hopen => absurd hopen (not_isOpen (by decide) _),
      fun _ => by simp only [List.length_cons]; omega⟩
  | case5 c cs hL hbracket hbracket' =>
    rw [next] at h
    · rw [← Except.ok.inj h]
      exact ⟨fun hopen => absurd hopen (not_isOpen hL _), fun _ => by simp⟩
    all_goals assumption

theorem shortens_reading : Shortens reading Scan.text := by
  intro s t _ hround
  obtain ⟨p, hnext, -⟩ := scanner_round_eq_ok.1 hround
  exact next_shortens hnext

/-- Where an open object is read without a fault, it is read for ever. -/
theorem not_halts_of_isOpen {s t : Scan Parameter} (hopen : IsOpen s.text)
    (hround : reading.round s = .ok t) :
    ¬ reading.Halts s := by
  obtain ⟨p, hnext, -⟩ := scanner_round_eq_ok.1 hround
  have hsame : t.text = s.text := (next_shortens hnext).1 hopen
  rw [hsame] at hnext
  -- what was read before does not matter for the next round
  refine Loop.not_halts_of_stays (fun u => u.text = s.text) (fun u hu => ?_) (fun u hu => ?_) rfl
  · show u.text.isEmpty = false
    rw [hu, List.isEmpty_eq_false_iff]
    intro hnil
    have hfront := hopen.front
    rw [hnil] at hfront
    cases hfront
  · rw [← hu] at hnext
    exact ⟨⟨u.text, u.taken ++ [p]⟩, scanner_round_eq_ok.2 ⟨p, hnext, rfl⟩, hu⟩

theorem reading_halts_iff {s : Scan Parameter} : reading.Halts s ↔
    ∀ t, reading.Reaches s t → IsOpen t.text → ∃ e, reading.round t = .error e := by
  constructor
  · intro h t hreach hopen
    cases hround : reading.round t with
    | error e => exact ⟨e, rfl⟩
    | ok u => exact absurd (hreach.halts h) (not_halts_of_isOpen hopen hround)
  · intro h
    obtain ⟨n, -, r, hends⟩ := ends_of_shortens shortens_reading (fun _ => rfl) h
    exact ⟨n, r, hends⟩

theorem scan_eq_of_ends {s : Scan Parameter} {n fuel : Nat} {r : Except Fault (Scan Parameter)}
    (h : reading.Ends n s r) (hfuel : n ≤ fuel) :
    (scan fuel s.text).map (s.taken ++ ·) = r.map Scan.taken := by
  induction h generalizing fuel with
  | @done s hdone =>
    rw [List.isEmpty_iff.1 hdone, scan]
    exact congrArg Except.ok (List.append_nil s.taken)
  | @failed s e hmore hround =>
    obtain ⟨fuel, rfl⟩ := Nat.exists_eq_succ_of_ne_zero (by omega : fuel ≠ 0)
    obtain ⟨c, cs, htext⟩ := exists_cons_of_more hmore
    have hnext := eq_error_of_map hround
    rw [htext] at hnext ⊢
    simp only [scan, hnext]
    rfl
  | @next n s t r hmore hround hrest ih =>
    obtain ⟨fuel, rfl⟩ := Nat.exists_eq_succ_of_ne_zero (by omega : fuel ≠ 0)
    obtain ⟨p, hnext, htaken⟩ := scanner_round_eq_ok.1 hround
    -- a round that leaves the text as it is would go on for ever
    have hshorter : t.text.length < s.text.length := (next_shortens hnext).2 fun hopen =>
      not_halts_of_isOpen hopen hround ⟨_, _, .next hmore hround hrest⟩
    rw [scan_step hnext hshorter, ← ih (by omega : n ≤ fuel), htaken]
    cases scan fuel t.text <;> simp [Except.map]

theorem scan_eq_of_not_halts {s : Scan Parameter} {fuel : Nat} (h : ¬ reading.Halts s)
    (hfuel : s.text.length ≤ fuel) :
    scan fuel s.text = .error .endless := by
  induction fuel generalizing s with
  | zero =>
    obtain ⟨c, cs, htext⟩ := exists_cons_of_more (Loop.more_of_not_halts h)
    simp [htext] at hfuel
  | succ fuel ih =>
    have hmore := Loop.more_of_not_halts h
    cases hround : reading.round s with
    | error e => exact absurd ⟨1, _, .failed hmore hround⟩ h
    | ok t =>
      obtain ⟨p, hnext, -⟩ := scanner_round_eq_ok.1 hround
      by_cases hshorter : t.text.length < s.text.length
      · have hrest := ih (fun ht => h (Loop.halts_of_round hmore hround ht)) (by omega)
        rw [scan_step hnext hshorter, hrest]
        rfl
      · obtain ⟨c, cs, htext⟩ := exists_cons_of_more hmore
        rw [htext] at hnext hshorter ⊢
        simp only [scan, hnext, ok_bind, if_neg hshorter]

end Parameter

namespace Corpus

open Parameter (IsOpen Shortens ends_of_shortens not_isOpen shortens_object)

/-! ### Letters for a corpus -/

/-- The text that is left, and the letters and the count of the parameters before it. -/
structure Lettering where
  text : List Char
  letters : List Char
  count : Nat

/-- The letters taken for the parameter at the front, and the rest. -/
def takeLetters : List Char → List Char × List Char
  | [] => ([], [])
  | 'L' :: cs =>
    let stop := Text.position ";" ('L' :: cs)
    (Text.slice (stop - 1) stop ('L' :: cs), Text.behindStop ('L' :: cs))
  | '[' :: cs => ((cs.drop 1).take 2, cs.drop 1)
  | c :: cs => ([c], cs)

/-- The loop over the parameters of a method that gives each a letter and a name. -/
def lettering : Loop Lettering where
  isDone s := s.text.isEmpty
  round s :=
    if s.count < nameCount then
      .ok ⟨(takeLetters s.text).2, s.letters ++ (takeLetters s.text).1, s.count + 1⟩
    else .error nameless

section Lettering

variable {text : List Char}

theorem takeLetters_letter {c : Char} (hL : c ≠ 'L') (hbracket : c ≠ '[') (cs : List Char) :
    takeLetters (c :: cs) = ([c], cs) := by
  rw [takeLetters]
  · exact hL
  · exact hbracket

theorem takeLetters_shortens (hne : text ≠ []) :
    (IsOpen text → (takeLetters text).2 = text) ∧
    (¬ IsOpen text → (takeLetters text).2.length < text.length) := by
  obtain ⟨c, cs, rfl⟩ := List.exists_cons_of_ne_nil hne
  by_cases hL : c = 'L'
  · subst hL
    exact shortens_object cs
  refine ⟨fun hopen => absurd hopen (not_isOpen hL cs), fun _ => ?_⟩
  by_cases hbracket : c = '['
  · subst hbracket
    show (cs.drop 1).length < _
    rw [List.length_drop, List.length_cons]
    omega
  · rw [takeLetters_letter hL hbracket]
    exact Nat.lt_succ_self _

theorem lettersOf_open (h : IsOpen text) (fuel : Nat) :
    lettersOf (fuel + 1) text = .error nameless := by
  obtain ⟨cs, rfl⟩ : ∃ cs, text = 'L' :: cs := List.head?_eq_some_iff.1 h.front
  have hpos : Text.position ";" ('L' :: cs) = -1 := Text.position_eq_neg_one (w := []) h.unended
  rw [lettersOf]
  simp only [hpos]
  rfl

theorem lettersOf_step (hne : text ≠ []) (h : ¬ IsOpen text) (fuel : Nat) :
    lettersOf (fuel + 1) text =
    (lettersOf fuel (takeLetters text).2).map fun r => ((takeLetters text).1 ++ r.1, r.2 + 1) := by
  obtain ⟨c, cs, rfl⟩ := List.exists_cons_of_ne_nil hne
  by_cases hL : c = 'L'
  · subst hL
    have hpos : ¬ Text.position ";" ('L' :: cs) < 0 := by
      have hmem : ';' ∈ 'L' :: cs := by
        by_contra hmem
        exact h ⟨rfl, hmem⟩
      obtain ⟨p, r, hcut, hp⟩ := List.eq_append_cons_of_mem hmem
      have hposition : Text.position ";" (p ++ ';' :: r) = p.length :=
        Text.position_append (w := []) r hp
      rw [hcut, hposition]
      omega
    rw [lettersOf]
    simp only [if_neg hpos]
    rfl
  by_cases hbracket : c = '['
  · subst hbracket
    rfl
  · rw [lettersOf, takeLetters_letter hL hbracket]
    · rfl
    · exact hL
    · exact hbracket

/-- Fuel for each character is enough, and more changes nothing. -/
theorem lettersOf_fuel {m n : Nat} (hm : text.length ≤ m) (hn : text.length ≤ n) :
    lettersOf m text = lettersOf n text := by
  induction m generalizing n text with
  | zero =>
    rw [List.length_eq_zero_iff.1 (Nat.le_zero.1 hm), lettersOf, lettersOf]
  | succ m ih =>
    by_cases hne : text = []
    · rw [hne, lettersOf, lettersOf]
    have hpos := List.length_pos_iff.2 hne
    obtain ⟨n, rfl⟩ := Nat.exists_eq_succ_of_ne_zero (by omega : n ≠ 0)
    by_cases hopen : IsOpen text
    · rw [lettersOf_open hopen, lettersOf_open hopen]
    · have hshorter := (takeLetters_shortens hne).2 hopen
      rw [lettersOf_step hne hopen, lettersOf_step hne hopen, ih (by omega) (by omega : _ ≤ n)]

/-- Letters are found for all parameters, one at least if there is any text, or there is an open
object. -/
theorem lettersOf_cases {fuel : Nat} (hfuel : text.length ≤ fuel) :
    lettersOf fuel text = .error nameless ∨
      ∃ r, lettersOf fuel text = .ok r ∧ (text ≠ [] → 0 < r.2) := by
  induction fuel generalizing text with
  | zero =>
    have hnil := List.length_eq_zero_iff.1 (Nat.le_zero.1 hfuel)
    refine .inr ⟨([], 0), by rw [hnil, lettersOf], fun hne => absurd hnil hne⟩
  | succ fuel ih =>
    by_cases hne : text = []
    · exact .inr ⟨([], 0), by rw [hne, lettersOf], fun h => absurd hne h⟩
    by_cases hopen : IsOpen text
    · exact .inl (lettersOf_open hopen fuel)
    · have hshorter := (takeLetters_shortens hne).2 hopen
      rw [lettersOf_step hne hopen]
      rcases ih (by omega : (takeLetters text).2.length ≤ fuel) with h | ⟨r, h, -⟩
      · exact .inl (by rw [h]; rfl)
      · exact .inr ⟨_, by rw [h]; rfl, fun _ => Nat.succ_pos _⟩

theorem shortens_lettering : Shortens lettering Lettering.text := by
  intro s t hmore hround
  simp only [lettering] at hround
  split at hround
  · rw [← Except.ok.inj hround]
    exact takeLetters_shortens (List.isEmpty_eq_false_iff.1 hmore)
  · cases hround

theorem namedLetters_eq (text : List Char) : namedLetters text =
    lettersOf text.length text >>= fun r => if nameCount < r.2 then .error nameless
      else .ok r := rfl

theorem nameless_of_namedLetters {e : Fault} (h : namedLetters text = .error e) : e = nameless := by
  rw [namedLetters_eq] at h
  rcases lettersOf_cases (Nat.le_refl text.length) with hnone | ⟨r, hr, -⟩
  · rw [hnone] at h
    exact (Except.error.inj h).symm
  · rw [hr, ok_bind] at h
    split at h
    · exact (Except.error.inj h).symm
    · cases h

/-- What the loop gives from a state: the letters that are still to come are put behind those that
are there. -/
def Lettering.value (s : Lettering) : Except Fault (List Char × Nat) :=
  lettersOf s.text.length s.text >>= fun r =>
    if nameCount < s.count + r.2 then .error nameless else .ok (s.letters ++ r.1, s.count + r.2)

theorem Lettering.value_round {s t : Lettering} (hmore : lettering.isDone s = false)
    (hround : lettering.round s = .ok t) :
    t.count ≤ nameCount ∧ t.value = s.value := by
  have hne := List.isEmpty_eq_false_iff.1 hmore
  obtain ⟨k, hk⟩ := Nat.exists_eq_succ_of_ne_zero (mt List.length_eq_zero_iff.1 hne)
  simp only [lettering] at hround
  split at hround
  next hcount =>
    obtain rfl := Except.ok.inj hround
    refine ⟨hcount, ?_⟩
    rw [value, value, hk]
    by_cases hopen : IsOpen s.text
    · rw [(takeLetters_shortens hne).1 hopen, hk, lettersOf_open hopen]
      rfl
    · have hshorter := (takeLetters_shortens hne).2 hopen
      rw [lettersOf_step hne hopen,
        lettersOf_fuel (Nat.le_refl _) (by omega : (takeLetters s.text).2.length ≤ k)]
      cases lettersOf k (takeLetters s.text).2 with
      | error e => rfl
      | ok r => simp [Except.map, Nat.add_assoc, Nat.add_comm 1]
  next => cases hround

/-- The loop for letters ends in any case: it runs out of names where it does not run out of
text. -/
theorem lettering_ends (text : List Char) :
    ∃ n ≤ nameCount + 1, ∃ r, lettering.Ends n ⟨text, [], 0⟩ r ∧
    namedLetters text = r.map fun s => (s.letters, s.count) := by
  have hround : ∀ s t, s.count ≤ nameCount → lettering.isDone s = false →
      lettering.round s = .ok t →
      t.count ≤ nameCount ∧ nameCount + 1 - t.count < nameCount + 1 - s.count := by
    intro s t hs _ hround
    simp only [lettering] at hround
    split at hround
    next hcount =>
      rw [← Except.ok.inj hround]
      exact ⟨hcount, by dsimp only; omega⟩
    next => cases hround
  obtain ⟨n, hn, r, hends, -⟩ :=
    Loop.ends_of_measure (s := Lettering.mk text [] 0) (fun s => nameCount + 1 - s.count)
    (fun s => s.count ≤ nameCount) (fun s hs _ => by omega) hround (Nat.zero_le _)
  have hvalue : Lettering.value ⟨text, [], 0⟩ = r.map fun s => (s.letters, s.count) := by
    refine hends.value Lettering.value _ (fun s => s.count ≤ nameCount) ?_ ?_ ?_ (Nat.zero_le _)
    · intro s hs hdone
      rw [Lettering.value, List.isEmpty_iff.1 hdone, lettersOf, ok_bind,
        if_neg (by dsimp only; omega), List.append_nil]
      rfl
    · intro s e _ hmore hround
      simp only [lettering] at hround
      split at hround
      · cases hround
      next hcount =>
        obtain rfl := Except.error.inj hround
        rw [Lettering.value]
        rcases lettersOf_cases (Nat.le_refl s.text.length) with h | ⟨r, h, hpos⟩
        · rw [h]
          rfl
        · have := hpos (List.isEmpty_eq_false_iff.1 hmore)
          rw [h, ok_bind, if_pos (by omega)]
    · exact fun s t _ => Lettering.value_round
  refine ⟨n, hn, r, hends, ?_⟩
  rw [← hvalue, namedLetters_eq, Lettering.value]
  simp only [Nat.zero_add, List.nil_append]

end Lettering

/-! ### Making objects of inputs -/

/-- The text that is left, the index of its first parameter, and the inputs with the objects before
it. -/
structure Wrapping where
  text : List Char
  index : Nat
  inputs : List (List Datum)

def frontName (text : List Char) : String :=
  String.ofList (Text.slice 1 (Text.position "<init>" text) text)

/-- The loop over the parameters of a method that makes objects of inputs. -/
def wrapping : Loop Wrapping where
  isDone s := s.text.isEmpty
  round s :=
    if s.text.head? = some 'L' then
      (s.inputs.mapM (wrapAt (frontName s.text) s.index)).map fun inputs =>
        ⟨Text.behindStop s.text, s.index + 1, inputs⟩
    else .ok ⟨s.text.tail, s.index + 1, s.inputs⟩

section Wrapping

variable {s t : Wrapping}

theorem wrapping_round_object {cs : List Char} (h : s.text = 'L' :: cs) : wrapping.round s =
    (s.inputs.mapM (wrapAt (frontName s.text) s.index)).map fun inputs =>
      ⟨Text.behindStop s.text, s.index + 1, inputs⟩ :=
  if_pos (by rw [h]; rfl)

theorem wrapping_round_letter {c : Char} {cs : List Char} (h : s.text = c :: cs) (hc : c ≠ 'L') :
    wrapping.round s = .ok ⟨cs, s.index + 1, s.inputs⟩ := by
  have hfront : s.text.head? ≠ some 'L' := by
    rw [h]
    exact fun heq => hc (Option.some.inj heq)
  simp only [wrapping]
  rw [if_neg hfront, h, List.tail_cons]

theorem shortens_wrapping : Shortens wrapping Wrapping.text := by
  intro s t hmore hround
  obtain ⟨c, cs, htext⟩ := List.exists_cons_of_ne_nil (List.isEmpty_eq_false_iff.1 hmore)
  by_cases hc : c = 'L'
  · subst hc
    rw [wrapping_round_object htext] at hround
    obtain ⟨inputs, -, rfl⟩ := map_eq_ok.1 hround
    rw [htext]
    exact shortens_object cs
  · rw [wrapping_round_letter htext hc] at hround
    rw [← Except.ok.inj hround, htext]
    exact ⟨fun hopen => absurd hopen (not_isOpen hc cs), fun _ => Nat.lt_succ_self _⟩

theorem wrapObjects_succ (hmore : wrapping.isDone s = false) (fuel : Nat) :
    wrapObjects (fuel + 1) s.text s.index s.inputs =
      wrapping.round s >>= fun t => wrapObjects fuel t.text t.index t.inputs := by
  obtain ⟨c, cs, htext⟩ := List.exists_cons_of_ne_nil (List.isEmpty_eq_false_iff.1 hmore)
  by_cases hc : c = 'L'
  · subst hc
    rw [wrapping_round_object htext, htext, wrapObjects]
    show (s.inputs.mapM (wrapAt (frontName ('L' :: cs)) s.index) >>= fun inputs =>
      wrapObjects fuel (Text.behindStop ('L' :: cs)) (s.index + 1) inputs) = _
    cases s.inputs.mapM (wrapAt (frontName ('L' :: cs)) s.index) <;> rfl
  · rw [wrapping_round_letter htext hc, htext, wrapObjects]
    · rfl
    · exact hc

theorem wrapObjects_eq_of_ends {n fuel : Nat} {r : Except Fault Wrapping} (h : wrapping.Ends n s r)
    (hfuel : n ≤ fuel) :
    wrapObjects fuel s.text s.index s.inputs = r.map Wrapping.inputs := by
  induction h generalizing fuel with
  | done hdone =>
    rw [List.isEmpty_iff.1 hdone, wrapObjects]
    rfl
  | failed hmore hround =>
    obtain ⟨fuel, rfl⟩ := Nat.exists_eq_succ_of_ne_zero (by omega : fuel ≠ 0)
    rw [wrapObjects_succ hmore, hround]
    rfl
  | @next n _ _ _ hmore hround _ ih =>
    obtain ⟨fuel, rfl⟩ := Nat.exists_eq_succ_of_ne_zero (by omega : fuel ≠ 0)
    rw [wrapObjects_succ hmore, hround, ok_bind, ih (by omega)]

theorem wrapObjects_eq_of_not_halts (h : ¬ wrapping.Halts s) (fuel : Nat) :
    wrapObjects fuel s.text s.index s.inputs = .error .endless := by
  have hmore := Loop.more_of_not_halts h
  induction fuel generalizing s with
  | zero =>
    obtain ⟨c, cs, htext⟩ := List.exists_cons_of_ne_nil (List.isEmpty_eq_false_iff.1 hmore)
    rw [htext, wrapObjects]
    rintro ⟨⟩
  | succ fuel ih =>
    rw [wrapObjects_succ hmore]
    cases hround : wrapping.round s with
    | error e => exact absurd ⟨1, _, .failed hmore hround⟩ h
    | ok t =>
      have ht : ¬ wrapping.Halts t := fun ht => h (Loop.halts_of_round hmore hround ht)
      exact ih ht (Loop.more_of_not_halts ht)

theorem wrapAt_eq_ok {name : String} {index : Nat} {input wrapped : List Datum}
    (h : wrapAt name index input = .ok wrapped) :
    index < input.length ∧ wrapped.length = input.length := by
  rw [wrapAt] at h
  split at h
  next d hd =>
    rw [← Except.ok.inj h, List.length_set]
    exact ⟨(List.getElem?_eq_some_iff.1 hd).1, rfl⟩
  next => cases h

/-- A round keeps the number of inputs and their width. Past an object there is an argument in
each. -/
theorem wrapping_round_eq_ok (width : Nat) (hwidth : ∀ x ∈ s.inputs, x.length = width)
    (hround : wrapping.round s = .ok t) :
    t.index = s.index + 1 ∧ (t.inputs = [] ↔ s.inputs = []) ∧ (∀ x ∈ t.inputs, x.length = width) ∧
      (s.text.head? = some 'L' → s.inputs ≠ [] → s.index < width) := by
  simp only [wrapping] at hround
  split at hround
  next =>
    obtain ⟨inputs, hmap, rfl⟩ := map_eq_ok.1 hround
    have hall := mapM_eq_ok.1 hmap
    refine ⟨rfl, ?_, fun y hy => ?_, fun _ hne => ?_⟩
    · rw [← List.length_eq_zero_iff, ← List.length_eq_zero_iff, hall.length_eq]
    · obtain ⟨x, hx, hwrap⟩ := (mem_of_mapM hmap).1 hy
      rw [(wrapAt_eq_ok hwrap).2, hwidth x hx]
    · obtain ⟨x, xs, hxs⟩ := List.exists_cons_of_ne_nil hne
      rw [hxs] at hall hwidth
      cases hall with
      | cons hwrap _ =>
        rw [← hwidth x (by simp)]
        exact (wrapAt_eq_ok hwrap).1
  next hfront =>
    obtain rfl := Except.ok.inj hround
    exact ⟨rfl, Iff.rfl, hwidth, fun h => absurd h hfront⟩

theorem Wrapping.inputs_of_reaches (h : wrapping.Reaches s t) (hs : s.inputs = []) :
    t.inputs = [] := by
  induction h with
  | refl s => exact hs
  | head _ hround _ ih => exact ih ((wrapping_round_eq_ok 0 (by simp [hs]) hround).2.1.2 hs)

/-- With an input, the loop ends at the latest at the first argument that is not there. -/
theorem wrapping_ends_of_input {width : Nat} (hwidth : ∀ x ∈ s.inputs, x.length = width)
    (hne : s.inputs ≠ []) :
    ∃ n ≤ s.text.length + (width + 1 - s.index), ∃ r, wrapping.Ends n s r := by
  have hpos : ∀ s : Wrapping, ((∀ x ∈ s.inputs, x.length = width) ∧ s.inputs ≠ []) →
      wrapping.isDone s = false →
      0 < s.text.length + (width + 1 - s.index) := fun s _ hs =>
    Nat.add_pos_left (List.length_pos_iff.2 (List.isEmpty_eq_false_iff.1 hs)) _
  have hround : ∀ s t : Wrapping, ((∀ x ∈ s.inputs, x.length = width) ∧ s.inputs ≠ []) →
      wrapping.isDone s = false →
      wrapping.round s = .ok t → ((∀ x ∈ t.inputs, x.length = width) ∧ t.inputs ≠ []) ∧
        t.text.length + (width + 1 - t.index) < s.text.length + (width + 1 - s.index) := by
    intro s t hs hmore hround
    obtain ⟨hindex, hnil, hwidth, hinside⟩ := wrapping_round_eq_ok width hs.1 hround
    refine ⟨⟨hwidth, mt hnil.1 hs.2⟩, ?_⟩
    -- an open object leaves the text, but there is an argument at its index
    obtain ⟨hsame, hshorter⟩ := shortens_wrapping s t hmore hround
    by_cases hopen : IsOpen s.text
    · have := hinside hopen.front hs.2
      rw [hsame hopen]
      omega
    · have := hshorter hopen
      omega
  obtain ⟨n, hn, r, hends, -⟩ := Loop.ends_of_measure _ _ hpos hround ⟨hwidth, hne⟩
  exact ⟨n, hn, r, hends⟩

theorem not_halts_of_no_input (hopen : IsOpen s.text) (hs : s.inputs = []) :
    ¬ wrapping.Halts s := by
  obtain ⟨cs, htext⟩ : ∃ cs, s.text = 'L' :: cs := List.head?_eq_some_iff.1 hopen.front
  refine Loop.not_halts_of_stays (fun u => u.text = s.text ∧ u.inputs = []) ?_ ?_ ⟨rfl, hs⟩
  · rintro u ⟨hu, -⟩
    show u.text.isEmpty = false
    rw [hu, htext]
    rfl
  · rintro u ⟨hu, hinputs⟩
    refine ⟨⟨Text.behindStop u.text, u.index + 1, []⟩, ?_, ?_, rfl⟩
    · rw [wrapping_round_object (hu.trans htext), hinputs]
      rfl
    · show Text.behindStop u.text = s.text
      rw [hu, Text.behindStop_of_not_mem hopen.unended]

theorem wrapping_ends_iff {width : Nat} (hwidth : ∀ x ∈ s.inputs, x.length = width) :
    (wrapping.Halts s ↔ s.inputs ≠ [] ∨ ∀ t, wrapping.Reaches s t → ¬ IsOpen t.text) ∧
      (wrapping.Halts s →
        ∃ n ≤ s.text.length + (width + 1 - s.index), ∃ r, wrapping.Ends n s r) := by
  have hends : (s.inputs ≠ [] ∨ ∀ t, wrapping.Reaches s t → ¬ IsOpen t.text) →
      ∃ n ≤ s.text.length + (width + 1 - s.index), ∃ r, wrapping.Ends n s r := by
    rintro (hne | hopen)
    · exact wrapping_ends_of_input hwidth hne
    · obtain ⟨n, hn, r, hends⟩ := ends_of_shortens shortens_wrapping (fun _ => rfl) fun t ht h =>
        absurd h (hopen t ht)
      exact ⟨n, Nat.le_add_right_of_le hn, r, hends⟩
  have hiff : wrapping.Halts s → s.inputs ≠ [] ∨ ∀ t, wrapping.Reaches s t → ¬ IsOpen t.text := by
    intro h
    by_cases hne : s.inputs = []
    · exact .inr fun t ht hopen =>
        not_halts_of_no_input hopen (Wrapping.inputs_of_reaches ht hne) (ht.halts h)
    · exact .inl hne
  refine ⟨⟨hiff, fun h => ?_⟩, fun h => hends (hiff h)⟩
  obtain ⟨n, -, r, h⟩ := hends h
  exact ⟨n, r, h⟩

end Wrapping

end Corpus

namespace Parameter

open Corpus

theorem exists_inside (method : String) (hopen : '(' ∈ method.toList)
    (hclose : ')' ∈ method.toList) :
    ∃ text, inside method = .ok text := by
  obtain ⟨p, r, hp, hfirst⟩ := List.eq_append_cons_of_mem hopen
  obtain ⟨q, s, hq, hlast⟩ := List.eq_append_cons_of_mem hclose
  have hi : method.toList.idxOf? '(' = some p.length := by rw [hp, Text.idxOf?_append r hfirst]
  have hj : method.toList.idxOf? ')' = some q.length := by rw [hq, Text.idxOf?_append s hlast]
  simp only [inside, hi, hj]
  exact ⟨_, rfl⟩

/-- The loops over the parameters of a method. A round shortens the text, except that it leaves the
text as it is where an open object stands at the front. The loop over a constructor ends. The loop
over the parameters ends just if it can not read the constructor of any open object that it comes
to. The loop for letters ends in any case, if not otherwise then for want of a name. The loop that
makes objects ends just if there is an input or it comes to no open object. -/
theorem loops_end_unless_open {method : String} {front inner back : List Char}
    (h : method.toList = front ++ '(' :: (inner ++ ')' :: back)) :
    ∃ text, inside method = .ok text ∧
      (∀ cs, building.Halts ⟨cs, []⟩ ∧
        building.Gives cs.length ⟨cs, []⟩ Scan.taken (initLetters cs)) ∧
      (∀ s t, building.round s = .ok t → t.text.length < s.text.length) ∧
      Shortens reading Scan.text ∧
      (reading.Halts ⟨text, []⟩ ↔ ∀ s, reading.Reaches ⟨text, []⟩ s → IsOpen s.text →
        ∃ e, reading.round s = .error e) ∧
      reading.Gives text.length ⟨text, []⟩ Scan.taken (ofMethod method) ∧
      Shortens lettering Lettering.text ∧ lettering.Halts ⟨text, [], 0⟩ ∧
      lettering.Gives (nameCount + 1) ⟨text, [], 0⟩ (fun s => (s.letters, s.count))
        (namedLetters text) ∧
      (∀ e, namedLetters text = .error e → e = nameless) ∧
      Shortens wrapping Wrapping.text ∧
      ∀ width inputs, (∀ x ∈ inputs, x.length = width) →
        (wrapping.Halts ⟨text, 0, inputs⟩ ↔
          inputs ≠ [] ∨ ∀ s, wrapping.Reaches ⟨text, 0, inputs⟩ s → ¬ IsOpen s.text) ∧
        wrapping.Gives (text.length + width + 1) ⟨text, 0, inputs⟩ Wrapping.inputs
          (wrapObjects (text.length + width + 1) text 0 inputs) := by
  obtain ⟨text, htext⟩ := exists_inside method (by simp [h]) (by simp [h])
  have hbuilding : ∀ cs, building.Halts ⟨cs, []⟩ ∧
      building.Gives cs.length ⟨cs, []⟩ Scan.taken (initLetters cs) := by
    intro cs
    obtain ⟨n, hn, r, hends, hvalue⟩ := building_ends cs
    have hhalts : building.Halts ⟨cs, []⟩ := ⟨n, r, hends⟩
    exact ⟨hhalts, fun _ => ⟨n, hn, r, hends, hvalue⟩, fun hnot => absurd hhalts hnot⟩
  have hmethod : ofMethod method = scan text.length text := by rw [ofMethod, htext, ok_bind]
  have hreading : reading.Gives text.length ⟨text, []⟩ Scan.taken (ofMethod method) := by
    rw [hmethod]
    refine ⟨fun hhalts => ?_, fun hnot => scan_eq_of_not_halts hnot (Nat.le_refl _)⟩
    obtain ⟨n, hn, r, hends⟩ :=
      ends_of_shortens shortens_reading (fun _ => rfl) (reading_halts_iff.1 hhalts)
    refine ⟨n, hn, r, hends, ?_⟩
    rw [← scan_eq_of_ends hends hn]
    cases scan text.length text <;> rfl
  obtain ⟨n, hn, r, hends, hvalue⟩ := lettering_ends text
  have hlettering : lettering.Halts ⟨text, [], 0⟩ := ⟨n, r, hends⟩
  refine ⟨text, htext, hbuilding, fun s t => building_shortens, shortens_reading,
    reading_halts_iff, hreading, shortens_lettering, hlettering,
    ⟨fun _ => ⟨n, hn, r, hends, hvalue⟩, fun hnot => absurd hlettering hnot⟩,
    fun e => nameless_of_namedLetters, shortens_wrapping, fun width inputs hwidth => ?_⟩
  obtain ⟨hiff, hbound⟩ := wrapping_ends_iff (s := ⟨text, 0, inputs⟩) hwidth
  refine ⟨hiff, fun hhalts => ?_, fun hnot => wrapObjects_eq_of_not_halts hnot _⟩
  obtain ⟨n, hn, r, hends⟩ := hbound hhalts
  exact ⟨n, hn, r, hends, wrapObjects_eq_of_ends hends hn⟩

/-- The first object has its end, the second has none. -/
theorem loops_of_unended_cell :
    "m:(Lc<init>I;L)V".toList = "m:".toList ++ '(' :: ("Lc<init>I;L".toList ++ ')' :: "V".toList) ∧
      inside "m:(Lc<init>I;L)V" = .ok "Lc<init>I;L".toList ∧
      ¬ reading.Halts ⟨"Lc<init>I;L".toList, []⟩ ∧
      ofMethod "m:(Lc<init>I;L)V" = .error .endless ∧
      lettering.Halts ⟨"Lc<init>I;L".toList, [], 0⟩ ∧
      wrapping.Halts ⟨"Lc<init>I;L".toList, 0, [[.int 1, .int 2]]⟩ := by
  have hmethod : "m:(Lc<init>I;L)V".toList =
      "m:".toList ++ '(' :: ("Lc<init>I;L".toList ++ ')' :: "V".toList) := by rfl
  have hinside : inside "m:(Lc<init>I;L)V" = .ok "Lc<init>I;L".toList := by rfl
  obtain ⟨text, htext, -, -, -, hhalts, hgives, -, hletters, -, -, -, hwrap⟩ :=
    loops_end_unless_open hmethod
  obtain rfl := Except.ok.inj (hinside.symm.trans htext)
  have hfirst : reading.round ⟨"Lc<init>I;L".toList, []⟩ = .ok ⟨['L'], [object "c" ["I"]]⟩ := by rfl
  have hsecond : reading.round ⟨['L'], [object "c" ["I"]]⟩ =
      .ok ⟨['L'], [object "c" ["I"], object "" []]⟩ := by rfl
  have hnot : ¬ reading.Halts ⟨"Lc<init>I;L".toList, []⟩ := by
    intro h
    obtain ⟨e, he⟩ := hhalts.1 h _ (.head rfl hfirst (.refl _)) ⟨rfl, by decide⟩
    rw [hsecond] at he
    cases he
  have hinput := (hwrap 2 [[.int 1, .int 2]] (by simp)).1.2 (.inl (by simp))
  exact ⟨hmethod, hinside, hnot, hgives.endless hnot, hletters, hinput⟩

/-- A round leaves the text of an open object as it is: it is read for ever, letters are taken until
there is no name left, and an input is searched for an argument that it does not have. -/
theorem open_object_stays :
    reading.round ⟨['L'], []⟩ = .ok ⟨['L'], [object "" []]⟩ ∧ ¬ reading.Halts ⟨['L'], []⟩ ∧
      ofMethod "m:(L)V" = .error .endless ∧
      lettering.round ⟨['L'], [], 0⟩ = .ok ⟨['L'], [], 1⟩ ∧ namedLetters ['L'] = .error nameless ∧
      wrapping.round ⟨['L'], 0, [[.int 1]]⟩ = .ok ⟨['L'], 1, [[.list [.str "", .int 1]]]⟩ ∧
      wrapObjects 3 ['L'] 0 [[.int 1]] = .error (.outOfRange "list index out of range") := by
  have hround : reading.round ⟨['L'], []⟩ = .ok ⟨['L'], [object "" []]⟩ := by rfl
  exact ⟨hround, not_halts_of_isOpen ⟨rfl, by decide⟩ hround, by rfl, by rfl, by rfl,
    by rfl, by rfl⟩

end Parameter

end Assay
