import Assay.Proofs.Fuzz.Shape

/-!
# Draws keep the shapes of inputs

Whatever is drawn, a random input for parameters of numbers has an argument of the right shape for
each of them, and a mutated copy of an input has arguments of the same shapes.
-/

namespace Assay.Fuzz

/-- Whatever the source hands out, the computation succeeds with a result of `P`. -/
def Yields {α : Type} (d : Draw α) (P : α → Prop) : Prop :=
  ∀ s : Source, ∃ (a : α) (s' : Source), d.run.run s = (.ok a, s') ∧ P a

namespace Yields

variable {α β : Type} {P : α → Prop} {Q : β → Prop}

theorem pure {a : α} (h : P a) : Yields (pure a : Draw α) P := fun s => ⟨a, s, rfl, h⟩

theorem bind {d : Draw α} {k : α → Draw β} (hd : Yields d P) (hk : ∀ a, P a → Yields (k a) Q) :
    Yields (d >>= k) Q := by
  intro s
  obtain ⟨a, s', hrun, ha⟩ := hd s
  obtain ⟨b, s'', hrun', hb⟩ := hk a ha s'
  refine ⟨b, s'', ?_, hb⟩
  rw [ExceptT.run_bind, StateT.run_bind, hrun]
  exact hrun'

theorem map {d : Draw α} {f : α → β} (hd : Yields d P) (hf : ∀ a, P a → Q (f a)) :
    Yields (f <$> d) Q := by
  rw [map_eq_pure_bind]
  exact hd.bind fun a ha => .pure (hf a ha)

theorem mono {d : Draw α} {P' : α → Prop} (hd : Yields d P) (h : ∀ a, P a → P' a) :
    Yields d P' := by
  intro s
  obtain ⟨a, s', hrun, ha⟩ := hd s
  exact ⟨a, s', hrun, h a ha⟩

theorem liftM {r : Except Fault α} {a : α} (hr : r = .ok a) (h : P a) :
    Yields (liftM r : Draw α) P := by
  subst hr
  exact fun s => ⟨a, s, rfl, h⟩

theorem below {n : Nat} (h : n ≠ 0) : Yields (Draw.below n) (· < n) := by
  intro s
  refine ⟨(s.next.1 % n).toNat, s.next.2, rfl, ?_⟩
  have hpos : (0 : Int) < n := by omega
  have hmod := Int.emod_lt_of_pos s.next.1 hpos
  omega

theorem between {lo hi : Int} (h : lo ≤ hi) :
    Yields (Draw.between lo hi) fun n => lo ≤ n ∧ n ≤ hi := by
  refine (below (n := (hi - lo + 1).toNat) (by omega)).bind fun k hk => .pure ?_
  omega

theorem oneOf (x : α) (xs : List α) : Yields (Draw.oneOf x xs) (· ∈ x :: xs) := by
  refine (below (Nat.succ_ne_zero xs.length)).bind fun k hk => .pure ?_
  have hlt : k < (x :: xs).length := hk
  rw [List.getD_eq_getElem?_getD, List.getElem?_eq_getElem hlt]
  exact List.getElem_mem hlt

theorem coin : Yields Draw.coin fun _ => True := (oneOf true [false]).mono fun _ _ => trivial

end Yields

/-! ### Random inputs -/

/-- A number that any of the integral types may be given at first. -/
def IsDrawn (n : Int) : Prop := -100000 ≤ n ∧ n ≤ 100000

theorem IsDrawn.isWritable {n : Int} (h : IsDrawn n) : Text.isWritable n = true := by
  have hn : n.natAbs < Nat.pow 10 6 := by
    have hpow : Nat.pow 10 6 = 1000000 := rfl
    obtain ⟨hlo, hhi⟩ := h
    omega
  have hdigits : 6 ≤ Text.maxDigits := by decide
  unfold Text.isWritable Text.writeBound
  generalize Text.maxDigits = m at hdigits ⊢
  exact decide_eq_true (Nat.lt_of_lt_of_le hn (Nat.pow_le_pow_right (by decide) hdigits))

theorem yields_randomValue (l : Letter) :
    Yields (randomValue l.name) fun d => ∃ n, d = .int n ∧ IsDrawn n := by
  have hrange : ∀ lo hi : Int, -100000 ≤ lo → lo ≤ hi → hi ≤ 100000 →
      Yields (Datum.int <$> Draw.between lo hi) fun d => ∃ n, d = .int n ∧ IsDrawn n := by
    intro lo hi hlo hle hhi
    exact (Yields.between hle).map fun n hn => ⟨n, rfl, by unfold IsDrawn; omega⟩
  cases l with
  | int => exact hrange (-1000) 1000 (by decide) (by decide) (by decide)
  | short => exact hrange (-1000) 1000 (by decide) (by decide) (by decide)
  | long => exact hrange (-100000) 100000 (by decide) (by decide) (by decide)
  | byte => exact hrange (-128) 127 (by decide) (by decide) (by decide)

theorem yields_randomValues (n : Nat) :
    Yields (randomValues "I" n) fun ds =>
      ∃ ns : List Int, ds = ns.map .int ∧ ∀ n ∈ ns, IsDrawn n := by
  induction n with
  | zero => exact .pure ⟨[], rfl, nofun⟩
  | succ n ih =>
    have hname : Letter.int.name = "I" := by decide
    have hvalue := yields_randomValue .int
    rw [hname] at hvalue
    refine hvalue.bind ?_
    rintro _ ⟨m, rfl, hm⟩
    refine ih.bind ?_
    rintro _ ⟨ns, rfl, hns⟩
    exact .pure ⟨m :: ns, rfl, List.forall_mem_cons.2 ⟨hm, hns⟩⟩

theorem randomOf_letter (l : Letter) : randomOf l.name = randomValue l.name := by
  have hlist : l.name.toList = [l.char] := by simp [Letter.name]
  rw [randomOf, hlist]
  split
  next h => simp at h
  next => rfl

theorem yields_randomEach (init : List Letter) :
    Yields (randomEach (init.map Letter.name)) fun ds =>
    ∃ ns : List Int, ds = ns.map .int ∧ ns.length = init.length ∧ ∀ n ∈ ns, IsDrawn n := by
  induction init with
  | nil => exact .pure ⟨[], rfl, rfl, nofun⟩
  | cons l init ih =>
    rw [List.map_cons, randomEach, randomOf_letter]
    refine (yields_randomValue l).bind ?_
    rintro _ ⟨m, rfl, hm⟩
    refine ih.bind ?_
    rintro _ ⟨ns, rfl, hlength, hns⟩
    exact .pure ⟨m :: ns, rfl, by simp [hlength], List.forall_mem_cons.2 ⟨hm, hns⟩⟩

theorem isInt_of_mem_ofData {ns : List Int} {a : Argument}
    (h : a ∈ Argument.ofData (ns.map .int)) : IsInt a := by
  induction ns with
  | nil => cases h
  | cons n ns ih =>
    rw [List.map_cons, Argument.ofData, Argument.ofDatum] at h
    · rcases List.mem_cons.1 h with rfl | h
      · exact .mk n
      · exact ih h
    · nofun

theorem length_ofData (ds : List Datum) : (Argument.ofData ds).length = ds.length := by
  induction ds with
  | nil => rfl
  | cons d ds ih => simp [Argument.ofData, ih]

/-- Data that are numbers become arguments that are, one for each. -/
theorem ofData_ints {ns : List Int} :
    (∀ a ∈ Argument.ofData (ns.map .int), IsInt a) ∧
    (Argument.ofData (ns.map .int)).length = ns.length :=
  ⟨fun _ => isInt_of_mem_ofData, (length_ofData _).trans (List.length_map _)⟩

mutual

theorem toDatum_ofDatum : ∀ d : Datum, (Argument.ofDatum d).toDatum = d
  | .list xs => by rw [Argument.ofDatum, Argument.toDatum, toData_ofData]
  | .null | .bool _ | .int _ | .float _ | .str _ | .tuple _ | .record _ | .value .. | .term _ => rfl

theorem toData_ofData : ∀ ds : List Datum, Argument.toData (Argument.ofData ds) = ds
  | [] => rfl
  | d :: ds => by rw [Argument.ofData, Argument.toData, toDatum_ofDatum, toData_ofData]

end

/-- A datum that is an argument of the shape and has a text. -/
structure IsDrawnFor (s : Shape) (d : Datum) : Prop where
  fits : Fits s (.ofDatum d)
  written : ∃ t, argumentText d = .ok t

theorem yields_randomArgument (s : Shape) : Yields (randomArgument s.parameter) (IsDrawnFor s) := by
  cases s with
  | number l =>
    rw [Shape.parameter, randomArgument, randomOf_letter]
    refine (yields_randomValue l).mono ?_
    rintro _ ⟨n, rfl, hn⟩
    exact ⟨.number l (.mk n), _, (argumentText_int n _).2 ⟨hn.isWritable, rfl⟩⟩
  | numbers =>
    refine (Yields.below (by decide : 51 ≠ 0)).bind fun n _ => (yields_randomValues n).bind ?_
    rintro _ ⟨ns, rfl, hns⟩
    refine .pure ⟨.numbers 0 ofData_ints.1, _, (argumentText_list "I" ns _).2 ⟨?_, rfl⟩⟩
    exact fun n hn => (hns n hn).isWritable
  | object name init long named takes =>
    refine (yields_randomEach init).bind ?_
    rintro _ ⟨ns, rfl, hlength, hns⟩
    refine .pure ⟨.object long named takes 0 ofData_ints.1 (ofData_ints.2.trans hlength), _,
      (argumentText_list name ns _).2 ⟨?_, rfl⟩⟩
    exact fun n hn => (hns n hn).isWritable

theorem yields_randomInput (shapes : List Shape) :
    Yields (randomInput (shapes.map Shape.parameter)) (List.Forall₂ IsDrawnFor shapes) := by
  induction shapes with
  | nil => exact .pure .nil
  | cons s shapes ih =>
    exact (yields_randomArgument s).bind fun d hd => ih.bind fun ds hds => .pure (.cons hd hds)

theorem forall₂_fits {shapes : List Shape} {ds : List Datum}
    (h : List.Forall₂ IsDrawnFor shapes ds) :
    List.Forall₂ Fits shapes (Argument.ofData ds) := by
  induction h with
  | nil => exact .nil
  | cons hd _ ih => exact .cons hd.fits ih

theorem exists_argumentTexts {shapes : List Shape} {ds : List Datum}
    (h : List.Forall₂ IsDrawnFor shapes ds) :
    ∃ ts, argumentTexts ds = .ok ts := by
  induction h with
  | nil => exact ⟨[], rfl⟩
  | cons hd _ ih =>
    obtain ⟨t, ht⟩ := hd.written
    obtain ⟨ts, hts⟩ := ih
    exact ⟨t :: ts, by rw [argumentTexts, ht, ok_bind, hts]; rfl⟩

/-- A random input is well formed. -/
theorem wellFormed_drawn {shapes : List Shape} {ds : List Datum}
    (h : List.Forall₂ IsDrawnFor shapes ds) :
    ∃ text, WellFormed shapes (.ofDatum (.list ds)) text := by
  obtain ⟨ts, hts⟩ := exists_argumentTexts h
  have htext : inputText (Argument.ofDatum (.list ds)).toDatum =
      .ok ("(" ++ ",".intercalate ts ++ ")") := by
    rw [toDatum_ofDatum]
    simp only [inputText, Datum.elements?, hts, ok_bind]
    rfl
  exact ⟨_, FitsAll.wellFormed (.list 0 (forall₂_fits h)) htext⟩

/-! ### Mutations -/

section Mutations

theorem yields_changePlain (n : Int) : Yields (changePlain (.int n)) fun d => ∃ m, d = .int m := by
  refine (Yields.below (by decide : 3 ≠ 0)).bind fun k _ => ?_
  match k with
  | 0 => exact (Yields.below (by decide : 8 ≠ 0)).bind fun bit _ => .pure ⟨_, rfl⟩
  | 1 => exact (Yields.between (by decide : (-100 : Int) ≤ 100)).bind fun m _ => .liftM rfl ⟨_, rfl⟩
  | _ + 2 => exact (Yields.oneOf (-1) [0, 1, 128, -128]).bind fun m _ => .pure ⟨m, rfl⟩

theorem yields_upsetPlain (n : Int) : Yields (upsetPlain (.int n)) fun d => ∃ m, d = .int m := by
  refine (Yields.below (by decide : 3 ≠ 0)).bind fun k _ => ?_
  match k with
  | 0 => exact (Yields.between (by decide : (-100 : Int) ≤ 100)).bind fun m _ => .liftM rfl ⟨_, rfl⟩
  | 1 => exact .liftM rfl ⟨_, rfl⟩
  | _ + 2 => exact .liftM rfl ⟨_, rfl⟩

theorem IsInt.mark {a : Argument} (h : IsInt a) : a.mark = 0 := by
  obtain ⟨n⟩ := h
  rfl

theorem yields_change_int (fuel : Nat) {a : Argument} (h : IsInt a) :
    Yields (change fuel a) IsInt := by
  obtain ⟨n⟩ := h
  rw [change]
  exact (yields_changePlain n).map fun _ ⟨m, hm⟩ => hm ▸ .mk m

theorem yields_upset_int {a : Argument} (h : IsInt a) : Yields (upset a) IsInt := by
  obtain ⟨n⟩ := h
  rw [upset]
  exact (yields_upsetPlain n).map fun _ ⟨m, hm⟩ => hm ▸ .mk m

/-- Numbers carry no marks, so each of them is changed by itself. -/
theorem yields_changeItems (fuel : Nat) {items : List Argument} (h : ∀ a ∈ items, IsInt a) :
    Yields (changeItems (change fuel) [] items) fun r => (∀ a ∈ r.1, IsInt a) ∧ r.2 = [] := by
  induction items with
  | nil => exact .pure ⟨nofun, rfl⟩
  | cons a items ih =>
    have ha := h a (by simp)
    rw [changeItems, if_pos ha.mark]
    refine (yields_change_int fuel ha).bind fun b hb => ?_
    rw [if_pos ha.mark]
    refine (ih fun c hc => h c (by simp [hc])).bind ?_
    rintro ⟨bs, table⟩ ⟨hbs, htable⟩
    exact .pure ⟨List.forall_mem_cons.2 ⟨hb, hbs⟩, htable⟩

theorem markLists_ints (n : Nat) {items : List Argument} (h : ∀ a ∈ items, IsInt a) :
    markLists n items = items := by
  induction items with
  | nil => rfl
  | cons a items ih =>
    obtain ⟨m⟩ := h a (by simp)
    rw [markLists, ih fun b hb => h b (by simp [hb])]
    nofun

theorem isInt_of_mem_doubled {items : List Argument} (h : ∀ a ∈ items, IsInt a) :
    ∀ a ∈ doubled items, IsInt a := by
  intro a ha
  rw [doubled, markLists_ints _ h] at ha
  exact (List.mem_append.1 ha).elim (h a) (h a)

/-- What a way of changing arguments does to numbers and to arrays of numbers. -/
structure KeepsShapes (f : Argument → Draw Argument) : Prop where
  int : ∀ a, IsInt a → Yields (f a) IsInt
  ints : ∀ a, Fits .numbers a → Yields (f a) (Fits .numbers)

theorem keepsShapes_change : KeepsShapes fun a => change a.depth a where
  int a h := yields_change_int a.depth h
  ints a h := by
    cases h with
    | @numbers mark items h =>
      rw [Argument.depth, change]
      refine (yields_changeItems _ h).bind ?_
      rintro ⟨bs, table⟩ ⟨hbs, rfl⟩
      refine .pure (.numbers mark fun b hb => ?_)
      obtain ⟨a, ha, rfl⟩ := List.mem_map.1 hb
      rw [if_pos (hbs a ha).mark]
      exact hbs a ha

theorem keepsShapes_upset : KeepsShapes upset where
  int a h := yields_upset_int h
  ints a h := by
    cases h with
    | @numbers mark items h =>
      rw [upset]
      refine (Yields.below (by decide : 4 ≠ 0)).bind fun k _ => ?_
      match k with
      | 0 =>
        refine (yields_randomValue .int).bind ?_
        rintro _ ⟨n, rfl, -⟩
        exact .pure (.numbers 0 (List.forall_mem_append.2 ⟨h, List.forall_mem_singleton.2 (.mk n)⟩))
      | 1 => exact .pure (.numbers 0 fun a ha => h a ((List.dropLast_sublist items).subset ha))
      | 2 => exact .pure (.numbers 0 (isInt_of_mem_doubled h))
      | _ + 3 => exact .pure (.numbers 0 fun a ha => h a (List.mem_reverse.1 ha))

theorem yields_mutation : Yields mutation KeepsShapes := by
  refine Yields.coin.bind fun havoc _ => ?_
  split
  · exact .pure keepsShapes_upset
  · exact .pure keepsShapes_change

variable {f : Argument → Draw Argument}

theorem yields_eachOf_ints (hf : KeepsShapes f) {items : List Argument} (h : ∀ a ∈ items, IsInt a) :
    Yields (eachOf f items) fun bs => (∀ b ∈ bs, IsInt b) ∧ bs.length = items.length := by
  induction items with
  | nil => exact .pure ⟨nofun, rfl⟩
  | cons a items ih =>
    refine (hf.int a (h a (by simp))).bind fun b hb => (ih fun c hc => h c (by simp [hc])).bind ?_
    rintro bs ⟨hbs, hlength⟩
    exact .pure ⟨List.forall_mem_cons.2 ⟨hb, hbs⟩, by simp [hlength]⟩

theorem yields_mutateArgument (hf : KeepsShapes f) {s : Shape} {a : Argument} (h : Fits s a) :
    Yields (mutateArgument f a) (Fits s) := by
  cases h with
  | number l h =>
    obtain ⟨n⟩ := h
    rw [mutateArgument]
    · refine Yields.coin.bind fun heads _ => ?_
      split
      · exact (hf.int _ (.mk n)).mono fun _ hb => .number l hb
      · exact .pure (.number l (.mk n))
    · nofun
    · nofun
  | numbers mark h =>
    rw [mutateArgument]
    refine (Yields.liftM (P := fun n => n = 1) rfl rfl).bind fun n hn => ?_
    rw [if_neg (by omega)]
    refine Yields.coin.bind fun heads _ => ?_
    split
    · exact hf.ints _ (.numbers mark h)
    · exact .pure (.numbers mark h)
  | @object name init long named takes mark items h hlength =>
    rw [mutateArgument]
    refine (Yields.liftM (P := fun n => n = name.length) rfl rfl).bind fun n hn => ?_
    rw [if_pos (by omega)]
    refine (yields_eachOf_ints hf h).bind ?_
    rintro bs ⟨hbs, hbslen⟩
    exact .pure (.object long named takes mark hbs (hbslen.trans hlength))

theorem yields_eachOf (hf : KeepsShapes f) {shapes : List Shape} {args : List Argument}
    (h : List.Forall₂ Fits shapes args) :
    Yields (eachOf (mutateArgument f) args) (List.Forall₂ Fits shapes) := by
  induction h with
  | nil => exact .pure .nil
  | cons ha _ ih =>
    exact (yields_mutateArgument hf ha).bind fun b hb => ih.bind fun bs hbs => .pure (.cons hb hbs)

/-- A mutated copy has the shapes of the input. -/
theorem yields_mutate {shapes : List Shape} {input : Argument} (h : FitsAll shapes input) :
    Yields (mutate input) (FitsAll shapes) := by
  obtain ⟨mark, hargs⟩ := h
  exact yields_mutation.bind fun f hf => (yields_eachOf hf hargs).bind fun bs hbs =>
    .pure (.list mark hbs)

end Mutations

end Assay.Fuzz
