import Assay.Corpus.Generate
import Assay.Proofs.Descriptor.Rendered

/-!
# The readers of descriptors compared

Three readers go over the parameters of a method: the one that knows arrays, the plain one, and the
one that counts parameters for a corpus and takes a letter for each. They differ at arrays only. The
plain reader makes two parameters of an array (`apart`), and the letters of a corpus miss the array
and have the two characters after it twice (`primitives`). So the three agree just if there is no
array.
-/

namespace Assay.Parameter

/-- The letters of the simple types. -/
def isTypeLetter (c : Char) : Bool := ['I', 'S', 'B', 'Z', 'C'].contains c

/-- A parameter made of these letters: one of them, an array of it, or an object with a constructor
that takes some. -/
inductive IsBasic : Parameter → Prop
  | letter {c : Char} (h : isTypeLetter c = true) : IsBasic (plain (String.singleton c))
  | array {c : Char} (h : isTypeLetter c = true) : IsBasic (plain (String.ofList ['[', c]))
  | object {name : String} {letters : List Char} (hmarker : '<' ∉ name.toList)
      (hstop : ';' ∉ name.toList) (hletters : ∀ c ∈ letters, isTypeLetter c = true)
      (hne : letters ≠ []) :
      IsBasic (object name (letters.map String.singleton))

def isArray : Parameter → Bool
  | plain type => type.toList.head? == some '['
  | object .. => false

/-- What the plain reader makes of a parameter. -/
def apart : Parameter → List Parameter
  | plain type => type.toList.map fun c => plain (String.singleton c)
  | object name init => [object name init]

/-- What a corpus takes for a parameter with this text after it: in place of an array, the first two
characters after it. -/
def primitive : Parameter → List Char → List Char
  | plain type, rest => if (plain type).isArray then rest.take 2 else type.toList
  | object _ init, _ => (init.flatMap String.toList).getLast?.toList

def primitives : List Parameter → List Char
  | [] => []
  | p :: ps => p.primitive (descriptor ps) ++ primitives ps

/-- The letters that a corpus takes from a method, and the number of parameters. -/
def corpusLetters (method : String) : Except Fault (List Char × Nat) := do
  let text ← inside method
  Corpus.lettersOf text.length text

/-- The readers find the same parameters, and there is one letter for each of them. -/
def ReadersAgree (method : String) : Prop :=
  ∃ ps letters, ofMethod method = .ok ps ∧ ofMethodPlain method = .ok ps ∧
    corpusLetters method = .ok (letters, ps.length) ∧ letters.length = ps.length

theorem ne_of_isTypeLetter {c d : Char} (h : isTypeLetter c = true)
    (hd : isTypeLetter d = false) : c ≠ d := by
  rintro rfl
  rw [h] at hd
  exact Bool.noConfusion hd

theorem flatMap_singleton (letters : List Char) :
    (letters.map String.singleton).flatMap String.toList = letters := by
  induction letters with
  | nil => rfl
  | cons c letters ih =>
    rw [List.map_cons, List.flatMap_cons, ih, String.toList_singleton, List.singleton_append]

section Readers

variable {p : Parameter} {ps : List Parameter}

theorem IsBasic.isRegular (h : p.IsBasic) : p.IsRegular := by
  cases h with
  | letter h =>
    exact .plain (.letter ⟨ne_of_isTypeLetter h (by decide), ne_of_isTypeLetter h (by decide)⟩)
  | array h =>
    exact .plain (.array ⟨ne_of_isTypeLetter h (by decide), ne_of_isTypeLetter h (by decide)⟩)
  | object hmarker hstop hletters _ =>
    refine .object hmarker hstop fun type ht => ?_
    obtain ⟨c, hc, rfl⟩ := List.mem_map.1 ht
    have hletter := hletters c hc
    exact .letter ⟨ne_of_isTypeLetter hletter (by decide), ne_of_isTypeLetter hletter (by decide)⟩

/-! ### The plain reader -/

theorem nextPlain_letter {c : Char} (h : c ≠ 'L') (rest : List Char) :
    nextPlain (c :: rest) = .ok (plain (String.singleton c), rest) := by
  rw [nextPlain]
  exact h

theorem nextPlain_object {name : String} {letters : List Char} (hmarker : '<' ∉ name.toList)
    (hstop : ';' ∉ name.toList) (hletters : ';' ∉ letters) (rest : List Char) :
    nextPlain ('L' :: (name.toList ++ ("<init>".toList ++ (letters ++ ';' :: rest)))) =
      .ok (object name (letters.map String.singleton), rest) := by
  have hnone : ';' ∉ name.toList ++ ("<init>".toList ++ letters) := by
    rw [List.mem_append, List.mem_append, not_or, not_or]
    exact ⟨hstop, by decide, hletters⟩
  have hcut : Text.cutAtFirst? ';' (name.toList ++ ("<init>".toList ++ (letters ++ ';' :: rest))) =
      some (name.toList ++ ("<init>".toList ++ letters), rest) := by
    simpa using Text.cutAtFirst?_append rest hnone
  have hword : Text.cutAtWord? "<init>".toList (name.toList ++ ("<init>".toList ++ letters)) =
      some (name.toList, letters) :=
    Text.cutAtWord?_append (w := "init>".toList) letters hmarker
  rw [nextPlain]
  simp only [hcut, hword, String.ofList_toList]

theorem scanPlain_step {text rest : List Char} (h : nextPlain text = .ok (p, rest)) (fuel : Nat) :
    scanPlain (fuel + 1) text = (do return p :: (← scanPlain fuel rest)) := by
  cases text with
  | nil => cases h
  | cons c cs => simp only [scanPlain, h, ok_bind]

theorem scanPlain_rendered (h : p.IsBasic) {rest : List Char} {fuel : Nat} {qs : List Parameter}
    (hrest : scanPlain fuel rest = .ok qs) :
    scanPlain (fuel + p.apart.length) (p.rendered ++ rest) = .ok (p.apart ++ qs) := by
  cases h with
  | @letter c h =>
    have hc : c ≠ 'L' := ne_of_isTypeLetter h (by decide)
    rw [rendered, apart, String.toList_singleton]
    exact (scanPlain_step (nextPlain_letter hc rest) fuel).trans (by rw [hrest]; rfl)
  | @array c h =>
    have hc : c ≠ 'L' := ne_of_isTypeLetter h (by decide)
    have hbracket : nextPlain ('[' :: c :: rest) = .ok (plain "[", c :: rest) :=
      nextPlain_letter (by decide) _
    rw [rendered, apart, String.toList_ofList]
    show scanPlain (fuel + 1 + 1) ('[' :: c :: rest) = _
    rw [scanPlain_step hbracket, scanPlain_step (nextPlain_letter hc rest), hrest]
    rfl
  | @object name letters hmarker hstop hletters hne =>
    have hsemicolon : ';' ∉ letters := fun hmem => absurd (hletters _ hmem) (by decide)
    have hall : (object name (letters.map String.singleton)).rendered ++ rest =
        'L' :: (name.toList ++ ("<init>".toList ++ (letters ++ ';' :: rest))) := by
      simp [rendered, flatMap_singleton]
    rw [hall, apart]
    exact (scanPlain_step (nextPlain_object hmarker hstop hsemicolon rest) fuel).trans
      (by rw [hrest]; rfl)

theorem length_apart_le (h : p.IsBasic) : p.apart.length ≤ p.rendered.length := by
  cases h with
  | letter => simp [apart, rendered]
  | array => simp [apart, rendered]
  | object => simp [apart, rendered]

theorem scanPlain_descriptor (hps : ∀ p ∈ ps, p.IsBasic) {fuel : Nat}
    (hfuel : (descriptor ps).length ≤ fuel) :
    scanPlain fuel (descriptor ps) = .ok (ps.flatMap apart) := by
  induction ps generalizing fuel with
  | nil => cases fuel <;> rfl
  | cons p ps ih =>
    have hp := hps p (by simp)
    have hle := length_apart_le hp
    rw [descriptor_cons, List.length_append] at hfuel
    -- an array takes two rounds, but has two characters as well
    obtain ⟨fuel, rfl⟩ := Nat.exists_eq_add_of_le' (by omega : p.apart.length ≤ fuel)
    have hrest := ih (fun q hq => hps q (by simp [hq])) (by omega : (descriptor ps).length ≤ fuel)
    rw [descriptor_cons, scanPlain_rendered hp hrest, List.flatMap_cons]

/-- As many parameters as there are, and one more for each array. -/
theorem length_flatMap_apart (hps : ∀ p ∈ ps, p.IsBasic) :
    (ps.flatMap apart).length = ps.length + ps.countP isArray := by
  induction ps with
  | nil => rfl
  | cons p ps ih =>
    have hrest := ih fun q hq => hps q (by simp [hq])
    have hone : p.apart.length = 1 + if p.isArray then 1 else 0 := by
      cases hps p (by simp) with
      | letter h =>
        simp [apart, isArray, ne_of_isTypeLetter h (by decide : isTypeLetter '[' = false)]
      | array => simp [apart, isArray]
      | object => rfl
    rw [List.flatMap_cons, List.length_append, hrest, hone, List.countP_cons, List.length_cons]
    omega

theorem flatMap_apart_eq_self (hps : ∀ p ∈ ps, p.IsBasic) (harray : ∀ p ∈ ps, p.isArray = false) :
    ps.flatMap apart = ps := by
  induction ps with
  | nil => rfl
  | cons p ps ih =>
    have hrest := ih (fun q hq => hps q (by simp [hq])) fun q hq => harray q (by simp [hq])
    have hone : p.apart = [p] := by
      have hp := harray p (by simp)
      cases hps p (by simp) with
      | letter => simp [apart]
      | array => simp [isArray] at hp
      | object => rfl
    rw [List.flatMap_cons, hrest, hone, List.singleton_append]

/-! ### The letters of a corpus -/

theorem lettersOf_letter {c : Char} (hL : c ≠ 'L') (hbracket : c ≠ '[') {rest : List Char}
    {fuel : Nat} {r : List Char × Nat} (h : Corpus.lettersOf fuel rest = .ok r) :
    Corpus.lettersOf (fuel + 1) (c :: rest) = .ok (c :: r.1, r.2 + 1) := by
  rw [Corpus.lettersOf, h]
  · rfl
  · exact hL
  · exact hbracket

theorem lettersOf_array (c : Char) {rest : List Char} {fuel : Nat} {r : List Char × Nat}
    (h : Corpus.lettersOf fuel rest = .ok r) :
    Corpus.lettersOf (fuel + 1) ('[' :: c :: rest) = .ok (rest.take 2 ++ r.1, r.2 + 1) := by
  rw [Corpus.lettersOf]
  simp only [List.drop_succ_cons, List.drop_zero, h, ok_bind]
  rfl

theorem lettersOf_object {name : String} {letters : List Char} {last : Char}
    (hmarker : '<' ∉ name.toList) (hstop : ';' ∉ name.toList) (hletters : ';' ∉ letters ++ [last])
    {rest : List Char} {fuel : Nat} {r : List Char × Nat} (h : Corpus.lettersOf fuel rest = .ok r) :
    Corpus.lettersOf (fuel + 1)
      ('L' :: (name.toList ++ ("<init>".toList ++ (letters ++ [last] ++ ';' :: rest)))) =
      .ok (last :: r.1, r.2 + 1) := by
  obtain ⟨-, hend⟩ := positions_object hmarker hstop hletters rest
  have hpos :
      ¬ ((('L' :: name.toList ++ ("<init>".toList ++ (letters ++ [last]))).length : Int) < 0) := by
    omega
  have hrest :
      Text.slice (('L' :: name.toList ++ ("<init>".toList ++ (letters ++ [last]))).length + 1)
      ('L' :: (name.toList ++ ("<init>".toList ++ (letters ++ [last] ++ ';' :: rest)))).length
      ('L' :: (name.toList ++ ("<init>".toList ++ (letters ++ [last] ++ ';' :: rest)))) = rest :=
    Text.slice_eq (p := 'L' :: name.toList ++ ("<init>".toList ++ (letters ++ [last])) ++ [';'])
      (r := []) (by simp)
      (by simp; omega) (by simp; omega)
  have hlast :
      Text.slice (('L' :: name.toList ++ ("<init>".toList ++ (letters ++ [last]))).length - 1)
      ('L' :: name.toList ++ ("<init>".toList ++ (letters ++ [last]))).length
      ('L' :: (name.toList ++ ("<init>".toList ++ (letters ++ [last] ++ ';' :: rest)))) = [last] :=
    Text.slice_eq (p := 'L' :: name.toList ++ ("<init>".toList ++ letters))
      (r := ';' :: rest) (by simp)
      (by simp; omega) (by simp; omega)
  rw [Corpus.lettersOf]
  simp only [hend, if_neg hpos, hrest, hlast, h, ok_bind]
  rfl

theorem lettersOf_rendered (h : p.IsBasic) {rest : List Char} {fuel : Nat} {r : List Char × Nat}
    (hrest : Corpus.lettersOf fuel rest = .ok r) :
    Corpus.lettersOf (fuel + 1) (p.rendered ++ rest) = .ok (p.primitive rest ++ r.1, r.2 + 1) := by
  cases h with
  | @letter c h =>
    have hL : c ≠ 'L' := ne_of_isTypeLetter h (by decide)
    have hbracket : c ≠ '[' := ne_of_isTypeLetter h (by decide)
    have hplain : (plain (String.singleton c)).isArray = false := by simp [isArray, hbracket]
    rw [rendered, primitive, hplain, String.toList_singleton]
    exact lettersOf_letter hL hbracket hrest
  | @array c h =>
    have harray : (plain (String.ofList ['[', c])).isArray = true := by simp [isArray]
    rw [rendered, primitive, harray, String.toList_ofList]
    exact lettersOf_array c hrest
  | @object name letters hmarker hstop hletters hne =>
    obtain ⟨front, last, rfl⟩ : ∃ front last, letters = front ++ [last] :=
      ⟨letters.dropLast, letters.getLast hne, (List.dropLast_append_getLast hne).symm⟩
    have hsemicolon : ';' ∉ front ++ [last] := fun hmem => absurd (hletters _ hmem) (by decide)
    have hall : (object name ((front ++ [last]).map String.singleton)).rendered ++ rest =
        'L' :: (name.toList ++ ("<init>".toList ++ (front ++ [last] ++ ';' :: rest))) := by
      rw [rendered, flatMap_singleton]
      simp
    rw [hall, primitive, flatMap_singleton, lettersOf_object hmarker hstop hsemicolon hrest]
    simp

theorem lettersOf_descriptor (hps : ∀ p ∈ ps, p.IsBasic) {fuel : Nat}
    (hfuel : (descriptor ps).length ≤ fuel) :
    Corpus.lettersOf fuel (descriptor ps) = .ok (primitives ps, ps.length) := by
  induction ps generalizing fuel with
  | nil => cases fuel <;> rfl
  | cons p ps ih =>
    have hp := hps p (by simp)
    have hpos : 0 < p.rendered.length := List.length_pos_iff.2 hp.isRegular.rendered_ne_nil
    rw [descriptor_cons, List.length_append] at hfuel
    obtain ⟨fuel, rfl⟩ := Nat.exists_eq_succ_of_ne_zero (by omega : fuel ≠ 0)
    have hrest := ih (fun q hq => hps q (by simp [hq])) (by omega : (descriptor ps).length ≤ fuel)
    rw [descriptor_cons, lettersOf_rendered hp hrest]
    rfl

/-- The parameters behind the last array; all of them if there is none. -/
def afterArrays : List Parameter → List Parameter
  | [] => []
  | p :: ps => if ps.any isArray then afterArrays ps else if p.isArray then ps else p :: ps

theorem length_primitive (h : p.IsBasic) (harray : p.isArray = false) (rest : List Char) :
    (p.primitive rest).length = 1 := by
  cases h with
  | letter => rw [primitive, harray]; simp
  | array => simp [isArray] at harray
  | object _ _ _ hne => rw [primitive, flatMap_singleton, List.getLast?_eq_some_getLast hne]; rfl

theorem length_primitives_of_no_array (hps : ∀ p ∈ ps, p.IsBasic)
    (harray : ∀ p ∈ ps, p.isArray = false) :
    (primitives ps).length = ps.length := by
  induction ps with
  | nil => rfl
  | cons p ps ih =>
    have hrest := ih (fun q hq => hps q (by simp [hq])) fun q hq => harray q (by simp [hq])
    have hone := length_primitive (hps p (by simp)) (harray p (by simp)) (descriptor ps)
    rw [primitives, List.length_append, hone, hrest, List.length_cons, Nat.add_comm]

theorem two_le_length_descriptor (hps : ∀ p ∈ ps, p.IsBasic) (harray : ps.any isArray = true) :
    2 ≤ (descriptor ps).length := by
  obtain ⟨p, hp, hpa⟩ := List.any_eq_true.1 harray
  have hlength : 2 ≤ p.rendered.length := by
    cases hps p hp with
    | letter h => simp [isArray, ne_of_isTypeLetter h (by decide : isTypeLetter '[' = false)] at hpa
    | array => simp [rendered]
    | object => simp [isArray] at hpa
  obtain ⟨front, back, rfl⟩ := List.append_of_mem hp
  simp only [descriptor, List.flatMap_append, List.flatMap_cons, List.length_append]
  omega

/-- Each array but the last adds a letter to those that are right; the last has at most two
characters behind it. -/
theorem length_primitives (hps : ∀ p ∈ ps, p.IsBasic) (harray : ps.any isArray = true) :
    (primitives ps).length + 2 =
      ps.length + ps.countP isArray + min 2 (descriptor (afterArrays ps)).length := by
  induction ps with
  | nil => simp at harray
  | cons p ps ih =>
    have hps' : ∀ q ∈ ps, q.IsBasic := fun q hq => hps q (by simp [hq])
    rw [primitives, List.length_append, List.length_cons, List.countP_cons, afterArrays]
    cases hany : ps.any isArray with
    | true =>
      have hrest := ih hps' hany
      have htwo := two_le_length_descriptor hps' hany
      cases hp : p.isArray with
      | true =>
        have hprimitive : (p.primitive (descriptor ps)).length = 2 := by
          cases p with
          | plain type => rw [primitive, hp, if_pos rfl, List.length_take]; omega
          | object => simp [isArray] at hp
        simp only [if_true]
        omega
      | false =>
        have hprimitive := length_primitive (hps p (by simp)) hp (descriptor ps)
        simp only [if_true, Bool.false_eq_true, if_false]
        omega
    | false =>
      have hnone : ∀ q ∈ ps, q.isArray = false := by simpa using hany
      have hrest := length_primitives_of_no_array hps' hnone
      have hcount : ps.countP isArray = 0 := List.countP_eq_zero.2 fun q hq => by simp [hnone q hq]
      have hp : p.isArray = true := by simpa [List.any_cons, hany] using harray
      have hprimitive : (p.primitive (descriptor ps)).length = min 2 (descriptor ps).length := by
        cases p with
        | plain type => rw [primitive, hp, if_pos rfl, List.length_take]
        | object => simp [isArray] at hp
      simp only [hp, if_true, Bool.false_eq_true, if_false]
      omega

theorem length_primitives_eq_iff (hps : ∀ p ∈ ps, p.IsBasic) : (primitives ps).length = ps.length ↔
    ps.countP isArray = 0 ∨ ps.countP isArray + min 2 (descriptor (afterArrays ps)).length = 2 := by
  cases hany : ps.any isArray with
  | true =>
    have hlength := length_primitives hps hany
    have hpos : ps.countP isArray ≠ 0 := by
      obtain ⟨p, hp, hpa⟩ := List.any_eq_true.1 hany
      exact Nat.pos_iff_ne_zero.1 (List.countP_pos_iff.2 ⟨p, hp, hpa⟩)
    omega
  | false =>
    have hnone : ∀ p ∈ ps, p.isArray = false := by simpa using hany
    have hcount : ps.countP isArray = 0 := List.countP_eq_zero.2 fun p hp => by simp [hnone p hp]
    simp [length_primitives_of_no_array hps hnone, hcount]

end Readers

/-- What the three readers give for a method with these parameters, and when they agree: the plain
one counts each array twice; there are as many letters as parameters without arrays, and by chance
with one array before a single character or with two of which the last ends the descriptor. -/
theorem readers_agree_iff_no_array {method : String} {ps : List Parameter}
    (hps : ∀ p ∈ ps, p.IsBasic) (hmethod : HasDescriptor method (descriptor ps)) :
    ofMethod method = .ok ps ∧ ofMethodPlain method = .ok (ps.flatMap apart) ∧
      corpusLetters method = .ok (primitives ps, ps.length) ∧
      ((ps.flatMap apart).length = ps.length ↔ ∀ p ∈ ps, p.isArray = false) ∧
      ((primitives ps).length = ps.length ↔
        ps.countP isArray = 0 ∨
        ps.countP isArray + min 2 (descriptor (afterArrays ps)).length = 2) ∧
      (ReadersAgree method ↔ ∀ p ∈ ps, p.isArray = false) := by
  have hread : ofMethod method = .ok ps := ofMethod_eq (fun p hp => (hps p hp).isRegular) hmethod
  have hplain : ofMethodPlain method = .ok (ps.flatMap apart) := by
    rw [ofMethodPlain, inside_eq hmethod, ok_bind]
    exact scanPlain_descriptor hps (Nat.le_refl _)
  have hletters : corpusLetters method = .ok (primitives ps, ps.length) := by
    rw [corpusLetters, inside_eq hmethod, ok_bind]
    exact lettersOf_descriptor hps (Nat.le_refl _)
  have hcount : (ps.flatMap apart).length = ps.length ↔ ∀ p ∈ ps, p.isArray = false := by
    rw [length_flatMap_apart hps, Nat.add_eq_left, List.countP_eq_zero]
    simp
  refine ⟨hread, hplain, hletters, hcount, length_primitives_eq_iff hps, ?_, fun hnone => ?_⟩
  · rintro ⟨qs, letters, hqs, hqs', -⟩
    have hsame : ps.flatMap apart = ps := by
      obtain rfl := Except.ok.inj (hread.symm.trans hqs)
      exact Except.ok.inj (hplain.symm.trans hqs')
    exact hcount.1 (congrArg List.length hsame)
  · rw [flatMap_apart_eq_self hps hnone] at hplain
    exact ⟨ps, primitives ps, hread, hplain, hletters, length_primitives_of_no_array hps hnone⟩

/-- A table, the cell at its place, and a flag. -/
def tableParameters : List Parameter := [plain "[I", object "math/Cell" ["I", "C"], plain "Z"]

theorem readers_of_table :
    (∀ p ∈ tableParameters, p.IsBasic) ∧
      HasDescriptor "math.Table.put:([ILmath/Cell<init>IC;Z)V" (descriptor tableParameters) ∧
      ofMethod "math.Table.put:([ILmath/Cell<init>IC;Z)V" = .ok tableParameters ∧
      ofMethodPlain "math.Table.put:([ILmath/Cell<init>IC;Z)V" =
        .ok (plain "[" :: plain "I" :: tableParameters.tail) ∧
      corpusLetters "math.Table.put:([ILmath/Cell<init>IC;Z)V" = .ok (['L', 'm', 'C', 'Z'], 3) ∧
      ¬ ReadersAgree "math.Table.put:([ILmath/Cell<init>IC;Z)V" := by
  have hps : ∀ p ∈ tableParameters, p.IsBasic := by
    intro p hp
    rcases List.mem_cons.1 hp with rfl | hp
    · exact .array (c := 'I') (by decide)
    rcases List.mem_cons.1 hp with rfl | hp
    · have hletters : ∀ c ∈ ['I', 'C'], isTypeLetter c = true := List.all_eq_true.1 (by decide)
      exact .object (by decide) (by decide) hletters (by decide)
    rw [List.mem_singleton.1 hp]
    exact .letter (c := 'Z') (by decide)
  have hmethod :
      HasDescriptor "math.Table.put:([ILmath/Cell<init>IC;Z)V" (descriptor tableParameters) :=
    ⟨"math.Table.put:".toList, ['V'], by decide, by decide, by decide⟩
  obtain ⟨hread, hplain, hletters, -, -, hagree⟩ := readers_agree_iff_no_array hps hmethod
  refine ⟨hps, hmethod, hread, hplain, hletters, fun h => ?_⟩
  exact absurd (hagree.1 h (plain "[I") (by simp [tableParameters])) (by decide)

/-- Before two more numbers, an array of numbers is one parameter of three, two of four, or two
letters of four. -/
theorem readers_differ_at_array :
    ofMethod "math.Table.at:([III)V" = .ok [plain "[I", plain "I", plain "I"] ∧
      ofMethodPlain "math.Table.at:([III)V" = .ok [plain "[", plain "I", plain "I", plain "I"] ∧
      corpusLetters "math.Table.at:([III)V" = .ok (['I', 'I', 'I', 'I'], 3) ∧
      ¬ ReadersAgree "math.Table.at:([III)V" := by
  have hread : ofMethod "math.Table.at:([III)V" = .ok [plain "[I", plain "I", plain "I"] := by rfl
  have hplain : ofMethodPlain "math.Table.at:([III)V" =
      .ok [plain "[", plain "I", plain "I", plain "I"] := by rfl
  refine ⟨hread, hplain, by rfl, ?_⟩
  rintro ⟨ps, letters, h, h', -⟩
  have hsame :=
    (Except.ok.inj (hread.symm.trans h)).trans (Except.ok.inj (hplain.symm.trans h')).symm
  exact absurd (congrArg List.length hsame) (by decide)

end Assay.Parameter
