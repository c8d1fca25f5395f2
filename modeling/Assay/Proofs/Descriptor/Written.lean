import Assay.Proofs.Fallible
import Assay.Proofs.MethodId

/-!
# Descriptors as they are written

`Describes cs t`: the text `cs` is a descriptor of `t`. Readers take such texts and no others. A
descriptor without classes is the text that is written for its type. That of an object is longer: it
has to hold a `<`, which is not part of the class name, and what stands from there to the semicolon
is lost. So an identifier that is read is written as it was exactly if no class is among its types.
-/

namespace Assay

namespace Ty

/-- The descriptors of a type. -/
inductive Describes : List Char → Ty → Prop
  | letter {c : Char} {t : Ty} (h : ofLetter? c = some t) : Describes [c] t
  | array {cs : List Char} {t : Ty} (h : Describes cs t) : Describes ('[' :: cs) (array t)
  | object {name more : List Char} (hne : name ≠ []) (hname : '<' ∉ name)
      (hend : ';' ∉ name ++ '<' :: more) :
      Describes ('L' :: (name ++ '<' :: more ++ [';']))
        (object ⟨Text.replaceChar '/' '.' (String.ofList name)⟩)

theorem classOf_eq_ok {inner : List Char} {c : ClassName} (h : classOf inner = .ok c) :
    ∃ name more, inner = name ++ '<' :: more ∧ name ≠ [] ∧ '<' ∉ name ∧
      c = ⟨Text.replaceChar '/' '.' (String.ofList name)⟩ := by
  rw [classOf] at h
  split at h
  next x xs more hcut =>
    obtain ⟨rfl, hname⟩ := Text.eq_of_cutAtFirst? hcut
    exact ⟨x :: xs, more, rfl, List.cons_ne_nil x xs, hname, (Except.ok.inj h).symm⟩
  next => cases h

/-- What is taken from the front of a text is a descriptor. -/
theorem describes_of_decodeFrom {whole : String} {cs rest : List Char} {t : Ty}
    (h : decodeFrom whole cs = .ok (t, rest)) : ∃ ds, Describes ds t ∧ cs = ds ++ rest := by
  induction cs generalizing t with
  | nil => cases h
  | cons c cs ih =>
    rw [decodeFrom] at h
    split at h
    next hc =>
      obtain ⟨⟨u, r⟩, hread, heq⟩ := bind_eq_ok.1 h
      obtain ⟨rfl, rfl⟩ := Prod.mk.inj (Except.ok.inj heq)
      obtain ⟨ds, hds, rfl⟩ := ih hread
      exact ⟨'[' :: ds, .array hds, by rw [hc, List.cons_append]⟩
    next =>
      split at h
      next hc =>
        split at h
        next => cases h
        next inner r hcut =>
          obtain ⟨rfl, hend⟩ := Text.eq_of_cutAtFirst? hcut
          obtain ⟨name, hclass, heq⟩ := bind_eq_ok.1 h
          obtain ⟨rfl, rfl⟩ := Prod.mk.inj (Except.ok.inj heq)
          obtain ⟨xs, more, rfl, hne, hname, rfl⟩ := classOf_eq_ok hclass
          exact ⟨_, .object hne hname hend, by simp [hc]⟩
      next =>
        split at h
        next u hletter =>
          obtain ⟨rfl, rfl⟩ := Prod.mk.inj (Except.ok.inj h)
          exact ⟨[c], .letter hletter, rfl⟩
        next => cases h

theorem isPlain_iff {t : Ty} : t.isPlain = true ↔ ∀ c, t.innermost ≠ .object c := by
  induction t with
  | array t ih => exact ih
  | object c => simp [isPlain, innermost]
  | _ => simp [isPlain, innermost]

theorem encode_of_letter {c : Char} {t : Ty} (h : ofLetter? c = some t) :
    t.isPlain = true ∧ t.encode.toList = [c] := by
  unfold ofLetter? at h
  split at h
  case h_10 => cases h
  all_goals
    obtain rfl := Option.some.inj h
    exact ⟨rfl, rfl⟩

namespace Describes

variable {cs : List Char} {t : Ty}

theorem ne_nil (h : Describes cs t) : cs ≠ [] := by
  cases h <;> simp

/-- A descriptor without a class is the one that is written. -/
theorem encode_eq (h : Describes cs t) (hplain : t.isPlain = true) : t.encode.toList = cs := by
  induction h with
  | letter h => exact (encode_of_letter h).2
  | array h ih => simp [encode, ih hplain]
  | object => cases hplain

/-- A descriptor with a class is longer than the one that is written. -/
theorem length_lt (h : Describes cs t) (hclass : t.isPlain = false) :
    t.encode.toList.length < cs.length := by
  induction h with
  | letter h => exact absurd hclass (by simp [(encode_of_letter h).1])
  | array h ih => simpa [encode] using ih hclass
  | @object name more hne hname hend =>
    simp [encode, ClassName.toList_slashed, Text.replaceChar]

theorem length_le (h : Describes cs t) : t.encode.toList.length ≤ cs.length := by
  cases hclass : t.isPlain with
  | true => rw [h.encode_eq hclass]
  | false => exact Nat.le_of_lt (h.length_lt hclass)

end Describes

/-- The texts of parameters, one after the other. -/
theorem describes_of_decodeAllFrom {fuel : Nat} {cs : List Char} {ts : List Ty}
    (hfuel : cs.length ≤ fuel) (h : decodeAllFrom fuel cs = .ok ts) :
    ∃ dss, List.Forall₂ Describes dss ts ∧ cs = dss.flatten := by
  induction fuel generalizing cs ts with
  | zero =>
    obtain rfl := List.length_eq_zero_iff.1 (Nat.le_zero.1 hfuel)
    obtain rfl : [] = ts := Except.ok.inj h
    exact ⟨[], .nil, rfl⟩
  | succ fuel ih =>
    cases cs with
    | nil =>
      obtain rfl : [] = ts := Except.ok.inj h
      exact ⟨[], .nil, rfl⟩
    | cons c cs =>
      obtain ⟨⟨t, rest⟩, hfirst, h⟩ := bind_eq_ok.1 h
      obtain ⟨us, hmore, heq⟩ := bind_eq_ok.1 h
      obtain rfl : t :: us = ts := Except.ok.inj heq
      obtain ⟨ds, hds, hcs⟩ := describes_of_decodeFrom hfirst
      have hpos := List.length_pos_iff.2 hds.ne_nil
      have hlength := congrArg List.length hcs
      rw [List.length_append] at hlength
      obtain ⟨dss, hdss, rfl⟩ := ih (by omega) hmore
      exact ⟨ds :: dss, .cons hds hdss, by rw [hcs, List.flatten_cons]⟩

theorem encodeAll_eq {dss : List (List Char)} {ts : List Ty} (h : List.Forall₂ Describes dss ts)
    (hplain : ∀ t ∈ ts, t.isPlain = true) : (encodeAll ts).toList = dss.flatten := by
  induction h with
  | nil => rfl
  | cons hd _ ih =>
    obtain ⟨ht, hts⟩ := List.forall_mem_cons.1 hplain
    rw [toList_encodeAll_cons, List.flatten_cons, hd.encode_eq ht, ih hts]

theorem length_encodeAll_le {dss : List (List Char)} {ts : List Ty}
    (h : List.Forall₂ Describes dss ts) :
    (encodeAll ts).toList.length ≤ dss.flatten.length := by
  induction h with
  | nil => exact Nat.le_refl 0
  | cons hd _ ih =>
    rw [toList_encodeAll_cons, List.flatten_cons, List.length_append, List.length_append]
    exact Nat.add_le_add hd.length_le ih

theorem length_encodeAll_lt {dss : List (List Char)} {ts : List Ty}
    (h : List.Forall₂ Describes dss ts) {t : Ty} (ht : t ∈ ts) (hclass : t.isPlain = false) :
    (encodeAll ts).toList.length < dss.flatten.length := by
  induction h with
  | nil => simp at ht
  | cons hd hds ih =>
    rw [toList_encodeAll_cons, List.flatten_cons, List.length_append, List.length_append]
    rcases List.mem_cons.1 ht with rfl | ht
    · exact Nat.add_lt_add_of_lt_of_le (hd.length_lt hclass) (length_encodeAll_le hds)
    · exact Nat.add_lt_add_of_le_of_lt hd.length_le (ih ht)

end Ty

namespace Signature

theorem eq_of_cutAtOpening? {cs p r : List Char} (h : cutAtOpening? cs = some (p, r)) :
    cs = p ++ ':' :: '(' :: r := by
  induction cs generalizing p with
  | nil => cases h
  | cons c cs ih =>
    rw [cutAtOpening?] at h
    split at h
    next q r' hcut =>
      obtain ⟨rfl, rfl⟩ := Prod.mk.inj (Option.some.inj h)
      rw [ih hcut, List.cons_append]
    next =>
      split at h
      next r' hafter =>
        obtain ⟨rfl, rfl⟩ := Prod.mk.inj (Option.some.inj h)
        rw [Text.after?_eq_some_iff.1 hafter]
        rfl
      next => cases h

/-- The text of a return type: a descriptor, or `V` for none. -/
inductive Returns : List Char → Option Ty → Prop
  | nothing : Returns ['V'] none
  | type {cs : List Char} {t : Ty} (h : Ty.Describes cs t) : Returns cs (some t)

theorem returns_of_decodeReturn {cs : List Char} {ret : Option Ty} (h : decodeReturn cs = .ok ret) :
    Returns cs ret := by
  rw [decodeReturn] at h
  split at h
  next hv =>
    obtain rfl : none = ret := Except.ok.inj h
    exact hv ▸ .nothing
  next =>
    obtain ⟨⟨t, rest⟩, hread, h⟩ := bind_eq_ok.1 h
    obtain ⟨ds, hds, rfl⟩ := Ty.describes_of_decodeFrom hread
    dsimp only at h
    split at h
    next hrest =>
      obtain rfl : some t = ret := Except.ok.inj h
      rw [List.isEmpty_iff.1 hrest, List.append_nil]
      exact .type hds
    next => cases h

namespace Returns

variable {cs : List Char} {ret : Option Ty}

theorem text_eq (h : Returns cs ret) (hplain : ∀ t ∈ ret, t.isPlain = true) :
    (returnText ret).toList = cs := by
  cases h with
  | nothing => rfl
  | type h => exact h.encode_eq (hplain _ rfl)

theorem length_le (h : Returns cs ret) : (returnText ret).toList.length ≤ cs.length := by
  cases h with
  | nothing => exact Nat.le_refl 1
  | type h => exact h.length_le

theorem length_lt (h : Returns cs ret) {t : Ty} (ht : t ∈ ret) (hclass : t.isPlain = false) :
    (returnText ret).toList.length < cs.length := by
  cases h with
  | nothing => cases ht
  | type h =>
    obtain rfl := Option.some.inj ht
    exact h.length_lt hclass

end Returns

/-- What a signature that is read looks like. -/
theorem decodeFrom_eq_ok {cs : List Char} (hline : '\n' ∉ cs) {s : Signature}
    (h : decodeFrom cs = .ok s) :
    ∃ dss ret, cs = s.name.toList ++ ':' :: '(' :: (dss.flatten ++ ')' :: ret) ∧
      List.Forall₂ Ty.Describes dss s.params ∧ Returns ret s.ret := by
  rw [decodeFrom] at h
  split at h
  next => cases h
  next name params ret hparts =>
    rw [parts?, Text.firstLine_eq_self hline] at hparts
    obtain ⟨⟨front, ret'⟩, hlast, hparts⟩ := Option.bind_eq_some_iff.1 hparts
    obtain ⟨⟨name', params'⟩, hopening, hparts⟩ := Option.bind_eq_some_iff.1 hparts
    obtain ⟨rfl, rfl, rfl⟩ : name' = name ∧ params' = params ∧ ret' = ret := by simpa using hparts
    obtain ⟨r, hret, h⟩ := bind_eq_ok.1 h
    obtain ⟨ps, hparams, h⟩ := bind_eq_ok.1 h
    obtain rfl := Except.ok.inj h
    obtain ⟨dss, hdss, rfl⟩ := Ty.describes_of_decodeAllFrom (Nat.le_refl _) hparams
    refine ⟨dss, ret', ?_, hdss, returns_of_decodeReturn hret⟩
    rw [Text.eq_of_cutAtLast? hlast, eq_of_cutAtOpening? hopening]
    simp

end Signature

namespace MethodId

theorem ownerParts_eq_ok {cs owner rest : List Char} (hline : '\n' ∉ cs)
    (h : ownerParts cs = .ok (owner, rest)) :
    cs = owner ++ '.' :: rest := by
  rw [ownerParts, Text.firstLine_eq_self hline] at h
  split at h
  next hcut =>
    obtain ⟨rfl, rfl⟩ := Prod.mk.inj (Except.ok.inj h)
    exact Text.eq_of_cutAtLast? hcut
  next => cases h

/-- The types of the parameters and of the result. -/
def types (m : MethodId) : List Ty := m.signature.params ++ m.signature.ret.toList

/-- An identifier is written as it was read, unless a class is among its types: then it gets
shorter. -/
theorem encode_of_decode {s : String} {m : MethodId} (hline : '\n' ∉ s.toList)
    (h : decode s = .ok m) :
    ((∀ t ∈ m.types, t.isPlain = true) → m.encode = s) ∧
      ∀ t ∈ m.types, t.isPlain = false → m.encode.toList.length < s.toList.length := by
  obtain ⟨⟨owner, rest⟩, howner, h⟩ := bind_eq_ok.1 h
  obtain ⟨sig, hsig, h⟩ := bind_eq_ok.1 h
  obtain rfl := Except.ok.inj h
  have hs := ownerParts_eq_ok hline howner
  have hrest : '\n' ∉ rest := fun hmem => hline (by simp [hs, hmem])
  obtain ⟨dss, ret, hcs, hdss, hret⟩ := Signature.decodeFrom_eq_ok hrest hsig
  have hencode : (encode ⟨⟨String.ofList owner⟩, sig⟩).toList = owner ++ '.' :: (sig.name.toList ++
      ':' :: '(' ::
        ((Ty.encodeAll sig.params).toList ++ ')' :: (Signature.returnText sig.ret).toList)) := by
    simp [encode, Signature.toList_encode]
  refine ⟨fun hplain => ?_, fun t ht hclass => ?_⟩
  · obtain ⟨hparams, hresult⟩ := List.forall_mem_append.1 hplain
    rw [← String.toList_inj, hencode, hs, hcs, Ty.encodeAll_eq hdss hparams,
      hret.text_eq fun t ht => hresult t (Option.mem_toList.2 ht)]
  · have hle := Ty.length_encodeAll_le hdss
    have hle' := hret.length_le
    rw [hencode, hs, hcs]
    simp only [List.length_append, List.length_cons]
    rcases List.mem_append.1 ht with ht | ht
    · have := Ty.length_encodeAll_lt hdss ht hclass
      omega
    · have := hret.length_lt (Option.mem_toList.1 ht) hclass
      omega

end MethodId

/-- What survives being read and written again: identifiers without classes among their types, and
types that are no class and no array of a class. -/
theorem survives_iff_no_class :
    (∀ (s : String) (m : MethodId), '\n' ∉ s.toList → MethodId.decode s = .ok m →
      (m.encode = s ↔ ∀ t ∈ m.types, ∀ c, t.innermost ≠ .object c)) ∧
    ∀ (t : Ty) (rest : String), Ty.decode (t.encode ++ rest) = .ok (t, rest) ↔
      ∀ c, t.innermost ≠ .object c := by
  refine ⟨fun s m hline hdecode => ?_, fun t rest => ?_⟩
  · obtain ⟨hsame, hshorter⟩ := MethodId.encode_of_decode hline hdecode
    refine ⟨fun hencode t ht => Ty.isPlain_iff.1 ?_,
      fun h => hsame fun t ht => Ty.isPlain_iff.2 (h t ht)⟩
    by_contra hclass
    have hlt := hshorter t ht (Bool.eq_false_iff.2 hclass)
    rw [hencode] at hlt
    exact Nat.lt_irrefl _ hlt
  · rw [← Ty.isPlain_iff]
    constructor
    · intro h
      obtain ⟨⟨u, r⟩, hread, heq⟩ := bind_eq_ok.1 h
      obtain ⟨rfl, hr⟩ := Prod.mk.inj (Except.ok.inj heq)
      obtain ⟨ds, hds, hcs⟩ := Ty.describes_of_decodeFrom hread
      -- the descriptor that was taken is the one that was written, so it is not longer
      have hds' : ds = u.encode.toList := by
        rw [String.toList_append, ← hr, String.toList_ofList] at hcs
        exact (List.append_cancel_right hcs).symm
      by_contra hclass
      have hlt := hds.length_lt (Bool.eq_false_iff.2 hclass)
      rw [hds'] at hlt
      exact Nat.lt_irrefl _ hlt
    · intro hplain
      rw [Ty.decode, String.toList_append, Ty.decodeFrom_encode hplain]
      simp

/-- An array of classes is written without the constructor; arrays of numbers stay. -/
theorem survives_table :
    let s := "math.Table.at:([[I[Lmath/Row<init>I;)[J"
    let m : MethodId :=
      ⟨⟨"math.Table"⟩, "at", [.array (.array .int), .array (.object ⟨"math.Row"⟩)],
        some (.array .long)⟩
    '\n' ∉ s.toList ∧ MethodId.decode s = .ok m ∧ m.encode ≠ s := by
  intro s m
  have hline : '\n' ∉ s.toList := by decide
  have hdecode : MethodId.decode "math.Table.at:([[I[Lmath/Row<init>I;)[J" = .ok m := by rfl
  refine ⟨hline, hdecode, fun h => ?_⟩
  exact (survives_iff_no_class.1 s m hline hdecode).1 h (.array (.object ⟨"math.Row"⟩))
    (by simp [m, MethodId.types]) _ rfl

end Assay
