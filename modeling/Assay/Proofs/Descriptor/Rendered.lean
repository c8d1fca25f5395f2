import Assay.Descriptor.Parameter
import Assay.Proofs.Fallible
import Assay.Proofs.Text

/-!
# Descriptors are read back

The text of a parameter says where it ends: a letter, an array of a letter, or an object up to its
semicolon (`IsRegular`). So the reader that knows arrays takes the parameters one by one from the
front of a descriptor, and gives them back as they were.
-/

namespace Assay.Parameter

/-- The text of a parameter in a method identifier. -/
def rendered : Parameter → List Char
  | plain type => type.toList
  | object name init =>
    'L' :: (name.toList ++ ("<init>".toList ++ (init.flatMap String.toList ++ [';'])))

/-- What stands between the parentheses of a method with these parameters. -/
def descriptor (ps : List Parameter) : List Char := ps.flatMap rendered

@[simp] theorem descriptor_nil : descriptor [] = [] := rfl

@[simp] theorem descriptor_cons (p : Parameter) (ps : List Parameter) :
    descriptor (p :: ps) = p.rendered ++ descriptor ps := rfl

/-- The text of a letter of `allowed`, or of an array of it. -/
inductive IsType (allowed : Char → Prop) : String → Prop
  | letter {c : Char} (h : allowed c) : IsType allowed (String.singleton c)
  | array {c : Char} (h : allowed c) : IsType allowed (String.ofList ['[', c])

inductive IsRegular : Parameter → Prop
  | plain {type : String} (h : IsType (fun c => c ≠ 'L' ∧ c ≠ '[') type) : IsRegular (plain type)
  | object {name : String} {init : List String} (hmarker : '<' ∉ name.toList)
      (hstop : ';' ∉ name.toList)
      (hinit : ∀ type ∈ init, IsType (fun c => c ≠ '[' ∧ c ≠ ';') type) :
        IsRegular (object name init)

theorem IsRegular.rendered_ne_nil {p : Parameter} (h : p.IsRegular) : p.rendered ≠ [] := by
  cases h with
  | plain h => cases h <;> simp [rendered]
  | object => simp [rendered]

theorem initLetters_letter {c : Char} (h : c ≠ '[') (cs : List Char) :
    initLetters (c :: cs) = (do return String.singleton c :: (← initLetters cs)) := by
  rw [initLetters]
  · rintro rfl
    exact absurd rfl h
  · intro _ _ hc
    exact absurd hc h

theorem initLetters_flatMap {init : List String}
    (h : ∀ type ∈ init, IsType (fun c => c ≠ '[' ∧ c ≠ ';') type) :
    initLetters (init.flatMap String.toList) = .ok init := by
  induction init with
  | nil => rfl
  | cons type init ih =>
    have hrest := ih fun t ht => h t (by simp [ht])
    have htype := h type (by simp)
    rw [List.flatMap_cons]
    cases htype with
    | letter hc =>
      rw [String.toList_singleton, List.singleton_append, initLetters_letter hc.1, hrest]
      rfl
    | array hc =>
      rw [String.toList_ofList]
      show initLetters ('[' :: _ :: init.flatMap String.toList) = _
      rw [initLetters, hrest]
      rfl

theorem not_mem_flatMap {init : List String}
    (h : ∀ type ∈ init, IsType (fun c => c ≠ '[' ∧ c ≠ ';') type) :
    ';' ∉ init.flatMap String.toList := by
  intro hmem
  obtain ⟨type, ht, hc⟩ := List.mem_flatMap.1 hmem
  cases h type ht with
  | letter hne =>
    rw [String.toList_singleton, List.mem_singleton] at hc
    exact hne.2 hc.symm
  | array hne =>
    rw [String.toList_ofList, List.mem_cons, List.mem_singleton] at hc
    rcases hc with hc | hc
    · exact absurd hc (by decide)
    · exact hne.2 hc.symm

/-- The places that the readers look for in the text of an object. -/
theorem positions_object {name : String} {letters : List Char} (hmarker : '<' ∉ name.toList)
    (hstop : ';' ∉ name.toList) (hletters : ';' ∉ letters) (rest : List Char) :
    Text.position "<init>" ('L' :: (name.toList ++ ("<init>".toList ++ (letters ++ ';' :: rest)))) =
        (('L' :: name.toList).length : Int) ∧
      Text.position ";" ('L' :: (name.toList ++ ("<init>".toList ++ (letters ++ ';' :: rest)))) =
        (('L' :: name.toList ++ ("<init>".toList ++ letters)).length : Int) := by
  constructor
  · exact Text.position_append (w := "init>".toList) (p := 'L' :: name.toList)
      (letters ++ ';' :: rest) (by simpa using hmarker)
  · have hnone : ';' ∉ 'L' :: name.toList ++ ("<init>".toList ++ letters) := by
      rw [List.mem_append, List.mem_append, List.mem_cons, not_or, not_or, not_or]
      exact ⟨⟨by decide, hstop⟩, by decide, hletters⟩
    have h := Text.position_append (w := []) rest hnone
    simpa using h

/-- The text of an object is cut at its marker and at its semicolon. -/
theorem next_object {name : String} {letters : List Char} (hmarker : '<' ∉ name.toList)
    (hstop : ';' ∉ name.toList) (hletters : ';' ∉ letters) (rest : List Char) :
    next ('L' :: (name.toList ++ ("<init>".toList ++ (letters ++ ';' :: rest)))) =
      (do return (object name (← initLetters letters), rest)) := by
  obtain ⟨hpos, hend⟩ := positions_object hmarker hstop hletters rest
  have hname : Text.slice 1 ('L' :: name.toList).length
      ('L' :: (name.toList ++ ("<init>".toList ++ (letters ++ ';' :: rest)))) = name.toList :=
    Text.slice_eq (p := ['L']) (r := "<init>".toList ++ (letters ++ ';' :: rest))
      (by simp) (by simp)
      (by simp [Nat.add_comm])
  have hinit : Text.slice (('L' :: name.toList).length + 6)
      ('L' :: name.toList ++ ("<init>".toList ++ letters)).length
      ('L' :: (name.toList ++ ("<init>".toList ++ (letters ++ ';' :: rest)))) = letters :=
    Text.slice_eq (p := 'L' :: name.toList ++ "<init>".toList) (r := ';' :: rest) (by simp)
      (by simp; omega)
      (by simp; omega)
  have hrest : Text.slice (('L' :: name.toList ++ ("<init>".toList ++ letters)).length + 1)
      ('L' :: (name.toList ++ ("<init>".toList ++ (letters ++ ';' :: rest)))).length
      ('L' :: (name.toList ++ ("<init>".toList ++ (letters ++ ';' :: rest)))) = rest :=
    Text.slice_eq (p := 'L' :: name.toList ++ ("<init>".toList ++ letters) ++ [';'])
      (r := []) (by simp)
      (by simp; omega) (by simp; omega)
  rw [next]
  simp only [hpos, hend, hname, hinit, hrest, String.ofList_toList]

/-- One parameter is taken from the front. -/
theorem next_rendered {p : Parameter} (h : p.IsRegular) (rest : List Char) :
    next (p.rendered ++ rest) = .ok (p, rest) := by
  cases h with
  | plain h =>
    cases h with
    | letter hc =>
      rw [rendered, String.toList_singleton, List.singleton_append, next]
      · exact hc.1
      · rintro rfl
        exact absurd rfl hc.2
      · intro _ _ hbracket
        exact absurd hbracket hc.2
    | array hc =>
      rw [rendered, String.toList_ofList]
      rfl
  | @object name init hmarker hstop hinit =>
    have hall : (object name init).rendered ++ rest =
        'L' ::
          (name.toList ++ ("<init>".toList ++ (init.flatMap String.toList ++ ';' :: rest))) := by
      simp [rendered]
    rw [hall, next_object hmarker hstop (not_mem_flatMap hinit), initLetters_flatMap hinit]
    rfl

/-- The next parameter is read and the rest scanned, as long as the rest is shorter. -/
theorem scan_step {p : Parameter} {text rest : List Char} (h : next text = .ok (p, rest))
    (hshorter : rest.length < text.length) (fuel : Nat) :
    scan (fuel + 1) text = (do return p :: (← scan fuel rest)) := by
  cases text with
  | nil => simp at hshorter
  | cons c cs => simp only [scan, h, ok_bind, hshorter, if_true]

theorem scan_descriptor {ps : List Parameter} (hps : ∀ p ∈ ps, p.IsRegular) {fuel : Nat}
    (hfuel : (descriptor ps).length ≤ fuel) : scan fuel (descriptor ps) = .ok ps := by
  induction ps generalizing fuel with
  | nil => cases fuel <;> rfl
  | cons p ps ih =>
    have hp := hps p (by simp)
    have hpos : 0 < p.rendered.length := List.length_pos_iff.2 hp.rendered_ne_nil
    rw [descriptor_cons, List.length_append] at hfuel
    obtain ⟨fuel, rfl⟩ := Nat.exists_eq_succ_of_ne_zero (by omega : fuel ≠ 0)
    have hshorter : (descriptor ps).length < (p.rendered ++ descriptor ps).length := by
      rw [List.length_append]
      omega
    have hrest := ih (fun q hq => hps q (by simp [hq])) (by omega : (descriptor ps).length ≤ fuel)
    rw [descriptor_cons, scan_step (next_rendered hp _) hshorter, hrest]
    rfl

/-- The descriptor of a method: it stands between its first parentheses. -/
structure HasDescriptor (method : String) (text : List Char) : Prop where
  parts : ∃ front back, method.toList = front ++ '(' :: (text ++ ')' :: back) ∧ '(' ∉ front ∧
    ')' ∉ front ++ text

theorem inside_eq {method : String} {text : List Char} (h : HasDescriptor method text) :
    inside method = .ok text := by
  obtain ⟨front, back, hmethod, hopen, hclose⟩ := h.parts
  have hnone : ')' ∉ front ++ '(' :: text := by
    intro hmem
    rcases List.mem_append.1 hmem with hmem | hmem
    · exact hclose (List.mem_append_left _ hmem)
    · rcases List.mem_cons.1 hmem with hmem | hmem
      · exact absurd hmem (by decide)
      · exact hclose (List.mem_append_right _ hmem)
  have hfirst := Text.idxOf?_append (text ++ ')' :: back) hopen
  have hlast := Text.idxOf?_append back hnone
  rw [← List.cons_append, ← List.append_assoc] at hmethod hfirst
  simp only [inside, hmethod, hfirst, hlast]
  refine congrArg Except.ok
    (Text.slice_eq (p := front ++ ['(']) (r := ')' :: back) (by simp) (by simp) ?_)
  simp
  omega

theorem ofMethod_eq {method : String} {ps : List Parameter} (hps : ∀ p ∈ ps, p.IsRegular)
    (h : HasDescriptor method (descriptor ps)) : ofMethod method = .ok ps := by
  rw [ofMethod, inside_eq h, ok_bind]
  exact scan_descriptor hps (Nat.le_refl _)

/-- Parameters written one after the other between the parentheses of a method are read as they
were, those of the constructors of objects included. -/
theorem ofMethod_inverts_descriptor (front back : String) {ps : List Parameter}
    (hfront : ∀ c ∈ front.toList, c ≠ '(' ∧ c ≠ ')') (hps : ∀ p ∈ ps, p.IsRegular)
    (hclose : ∀ p ∈ ps, ')' ∉ p.rendered) :
    ofMethod (front ++ "(" ++ String.ofList (descriptor ps) ++ ")" ++ back) = .ok ps := by
  have hnone : ')' ∉ front.toList ++ descriptor ps := by
    intro hmem
    rcases List.mem_append.1 hmem with hmem | hmem
    · exact (hfront _ hmem).2 rfl
    · obtain ⟨p, hp, hc⟩ := List.mem_flatMap.1 hmem
      exact hclose p hp hc
  exact ofMethod_eq hps ⟨front.toList, back.toList, by simp,
    fun hmem => (hfront _ hmem).1 rfl, hnone⟩

/-- Letters that would be marks elsewhere, a class whose name begins like a parameter, and one
without a name. -/
def oddParameters : List Parameter :=
  [plain ";", object "a/L[b" ["I", "[C"], plain "[<", plain "(", object "" []]

theorem ofMethod_inverts_odd :
    (∀ p ∈ oddParameters, p.IsRegular) ∧ (∀ p ∈ oddParameters, ')' ∉ p.rendered) ∧
    ofMethod "m:(;La/L[b<init>I[C;[<(L<init>;)V" = .ok oddParameters := by
  have hps : ∀ p ∈ oddParameters, p.IsRegular := by
    have hinit : ∀ type ∈ ["I", "[C"], IsType (fun c => c ≠ '[' ∧ c ≠ ';') type := by
      intro type ht
      rcases List.mem_pair.1 ht with rfl | rfl
      · exact .letter (c := 'I') (by decide)
      · exact .array (c := 'C') (by decide)
    simp only [oddParameters, List.forall_mem_cons]
    exact ⟨.plain (.letter (c := ';') (by decide)), .object (by decide) (by decide) hinit,
      .plain (.array (c := '<') (by decide)), .plain (.letter (c := '(') (by decide)),
      .object (by decide) (by decide) (by simp), by simp⟩
  have hclose : ∀ p ∈ oddParameters, ')' ∉ p.rendered := by decide
  have hfront : ∀ c ∈ ['m', ':'], c ≠ '(' ∧ c ≠ ')' := by simp
  have htext : "m:" ++ "(" ++ String.ofList (descriptor oddParameters) ++ ")" ++ "V" =
      "m:(;La/L[b<init>I[C;[<(L<init>;)V" := by decide +kernel
  rw [← htext]
  exact ⟨hps, hclose, ofMethod_inverts_descriptor "m:" "V" hfront hps hclose⟩

end Assay.Parameter
