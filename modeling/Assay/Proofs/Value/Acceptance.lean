import Assay.Proofs.Value.Grammar

/-!
# The reader of values accepts its grammar

Every list of phrases without overlong numbers is taken (`run_whole`). Conversely, an `Outcome`
tells what a run comes to: a phrase was taken from the front of the tokens, or the tokens were
refused and the fault is excused. A reader is `Sound` if all its runs on tokens of the scanner have
such outcomes, and sound readers make sound readers when they are put one after the other.
-/

namespace Assay

namespace Token

theorem IsLexeme.exists_form {t : Token} (h : t.IsLexeme) {kind : Kind} (hkind : t.kind = kind) :
    ∃ cs, kind.Form cs ∧ t = ⟨kind, String.ofList cs⟩ := by
  subst hkind
  exact ⟨t.text.toList, h, by rw [String.ofList_toList]⟩

theorem IsLexeme.openArray {t : Token} (h : t.IsLexeme) (hkind : t.kind = .openArray) :
    t = ⟨.openArray, "[I:"⟩ ∨ t = ⟨.openArray, "[C:"⟩ := by
  obtain ⟨cs, hform, rfl⟩ := h.exists_form hkind
  cases hform with
  | openArray hk => rcases hk with rfl | rfl <;> simp

theorem IsLexeme.closeArray {t : Token} (h : t.IsLexeme) (hkind : t.kind = .closeArray) :
    t = ⟨.closeArray, "]"⟩ := by
  obtain ⟨cs, hform, rfl⟩ := h.exists_form hkind
  cases hform
  rfl

theorem IsLexeme.comma {t : Token} (h : t.IsLexeme) (hkind : t.kind = .comma) :
    t = ⟨.comma, ","⟩ := by
  obtain ⟨cs, hform, rfl⟩ := h.exists_form hkind
  cases hform
  rfl

theorem isShort_of_ne {t : Token} (h : t.kind ≠ .int) : t.IsShort := fun hkind => absurd hkind h

end Token

namespace Value

open Reader

theorem readInt_signed (negative : Bool) {ds : List Char} (hne : ds ≠ [])
    (hd : ∀ c ∈ ds, Text.isDecimal c = true) :
    Text.readInt (String.ofList (Token.signed negative ds)) =
      if ds.length > Text.maxDigits then .error (Text.unreadable ds.length)
        else .ok (Token.number negative ds) :=
  Text.readInt_of_isDecimal String.toList_ofList hne hd

section Complete

variable {ts : List Token} (hshort : ∀ t ∈ ts, t.IsShort)

include hshort

theorem IsInt.takes {n : Int} (h : IsInt ts n) : Takes int ts n := by
  cases h with
  | @digits negative ds hne hd =>
    have hl := (Token.isShort_int _ hd).1 (hshort _ (List.mem_singleton_self _))
    have hread := readInt_signed negative hne hd
    rw [if_neg (Nat.not_lt.2 hl)] at hread
    refine ⟨fun input rest => ?_, _, _, rfl, Token.Kind.noConfusion⟩
    rw [List.singleton_append, run_int rfl, hread]

omit hshort in
theorem IsChar.takes {s : String} (h : IsChar ts s) : Takes char ts s := by
  cases h with
  | @quoted c h => exact ⟨reads_char c, _, _, rfl, Token.Kind.noConfusion⟩

theorem IsValue.takes {v : Value} (h : IsValue ts v) : Takes value ts v := by
  cases h with
  | int h =>
    obtain ⟨hread, -⟩ := h.takes hshort
    cases h
    exact ⟨reads_value_int hread, _, _, rfl, Token.Kind.noConfusion⟩
  | char h =>
    cases h
    exact ⟨reads_value_char _, _, _, rfl, Token.Kind.noConfusion⟩
  | bool b => exact ⟨reads_value_bool b, _, _, rfl, Token.Kind.noConfusion⟩
  | ints h =>
    have hitems := h.imp fun us n hus hn => hn.takes fun t ht => hshort t (by simp [hus t ht])
    exact ⟨reads_array (f := fun ns => ofArray .int (ns.map .int)) hitems rfl, _, _, rfl,
      Token.Kind.noConfusion⟩
  | chars h =>
    have hitems := h.imp fun us s _ hs => hs.takes
    exact ⟨reads_array (f := fun ss => ofArray .char (ss.map .str)) hitems rfl, _, _, rfl,
      Token.Kind.noConfusion⟩

omit hshort in
theorem IsObject.takes {v : Value} (h : IsObject ts v) : Takes value ts v := by
  cases h with
  | @new name inner vs hne hname hclose hargs =>
    refine ⟨fun input rest => ?_, _, _, rfl, Token.Kind.noConfusion⟩
    rw [List.singleton_append, run_value_object (objectParts_objectText hname inner),
      mapM_eq_ok.2 hargs]
    rfl

theorem IsPhrase.takes {v : Value} (h : IsPhrase ts v) : Takes value ts v :=
  h.elim (fun h => h.takes hshort) IsObject.takes

end Complete

namespace Reader

/-- Values with commas between them, and nothing after them. -/
def whole : Reader (List Value) := do
  let vs ← values
  eof
  return vs

/-- A list of phrases without overlong numbers is taken. -/
theorem run_whole {ts : List Token} {vs : List Value} (h : Listed IsPhrase ts vs)
    (hshort : ∀ t ∈ ts, t.IsShort) (input : String) : whole.run input ts = (.ok vs, []) := by
  have hitems := h.imp fun us v hus hv => hv.takes fun t ht => hshort t (hus t ht)
  have hvalues := run_items hitems input .none
  rw [List.append_nil] at hvalues
  rw [whole, run_bind (r := values) hvalues]
  rfl

/-- The fault names tokens that do not stand where they may, or is that of an argument of an
object. -/
def IsExcused (ts : List Token) (e : Fault) : Prop :=
  e.kind = .malformed ∨
    ∃ t ∈ ts, t.kind = .object ∧ ∃ a ∈ (objectParts t.text.toList).2,
      Argument.read true a = .error e

theorem IsExcused.mono {ts us : List Token} {e : Fault} (h : IsExcused ts e)
    (hsub : ∀ t ∈ ts, t ∈ us) :
    IsExcused us e :=
  h.imp_right fun ⟨t, ht, hrest⟩ => ⟨t, hsub t ht, hrest⟩

theorem IsExcused.eq_malformed {ts : List Token} {e : Fault} (h : IsExcused ts e)
    (hplain : ∀ t ∈ ts, t.kind ≠ .object) :
    e = .malformed e.message := by
  rcases h with hkind | ⟨t, ht, hobject, -⟩
  · rw [Fault.malformed, ← hkind]
  · exact absurd hobject (hplain t ht)

variable {α β : Type} {Item : List Token → α → Prop} {Item' : List Token → β → Prop}

/-- What a run on the tokens `ts` comes to. -/
inductive Outcome (Item : List Token → α → Prop) (ts : List Token) :
    Except Fault α × List Token → Prop
  | taken {us rest : List Token} {x : α} (h : Item us x) (hshort : ∀ t ∈ us, t.IsShort)
      (hts : us ++ rest = ts) :
      Outcome Item ts (.ok x, rest)
  | refused {e : Fault} {rest : List Token} (h : IsExcused ts e) : Outcome Item ts (.error e, rest)

theorem Outcome.of_pure {ts : List Token} {x : α} (h : Item [] x) : Outcome Item ts (.ok x, ts) :=
  .taken h (by simp) rfl

/-- A token that was passed belongs to what was taken. -/
theorem Outcome.cons {t : Token} {ts : List Token} {result : Except Fault α × List Token}
    (h : Outcome (fun us x => Item (t :: us) x) ts result) (ht : t.IsShort) :
    Outcome Item (t :: ts) result := by
  cases h with
  | taken h hshort hts =>
    exact .taken h (List.forall_mem_cons.2 ⟨ht, hshort⟩) (by rw [List.cons_append, hts])
  | refused h => exact .refused (h.mono fun u hu => List.mem_cons_of_mem t hu)

/-- The reader takes phrases only, and refuses tokens for a reason. -/
def Sound (r : Reader α) (Item : List Token → α → Prop) : Prop :=
  ∀ input ts, (∀ t ∈ ts, t.IsLexeme) → Outcome Item ts (r.run input ts)

theorem Sound.pure {x : α} (h : Item [] x) : Sound (pure x) Item := fun _ _ _ => .of_pure h

theorem Sound.bind {r : Reader α} {f : α → Reader β} (hr : Sound r Item)
    (hf : ∀ us x, Item us x → (∀ t ∈ us, t.IsLexeme) → Sound (f x) fun vs y => Item' (us ++ vs) y) :
    Sound (r >>= f) Item' := by
  intro input ts hts
  have hfirst := hr input ts hts
  generalize hrun : r.run input ts = result at hfirst
  cases hfirst with
  | refused h =>
    rw [run_bind_error hrun]
    exact .refused h
  | @taken us rest x h hshort hsplit =>
    subst hsplit
    obtain ⟨hus, hrest⟩ := List.forall_mem_append.1 hts
    rw [run_bind hrun]
    have hnext := hf us x h hus input rest hrest
    generalize (f x).run input rest = result at hnext ⊢
    cases hnext with
    | taken h' hshort' hsplit =>
      exact .taken h' (List.forall_mem_append.2 ⟨hshort, hshort'⟩)
        (by rw [List.append_assoc, hsplit])
    | refused h' => exact .refused (h'.mono fun t ht => List.mem_append_right us ht)

theorem Sound.mono {Item' : List Token → α → Prop} {r : Reader α} (hr : Sound r Item)
    (h : ∀ us x, Item us x → Item' us x) : Sound r Item' := by
  intro input ts hts
  have hrun := hr input ts hts
  generalize r.run input ts = result at hrun ⊢
  cases hrun with
  | taken hx hshort hsplit => exact .taken (h _ _ hx) hshort hsplit
  | refused he => exact .refused he

theorem sound_get : Sound (get : Reader (List Token)) fun us _ => us = [] :=
  fun _ _ _ => .of_pure rfl

theorem outcome_expected (what input : String) (ts : List Token) :
    Outcome Item ts ((expected what : Reader α).run input ts) := by
  obtain ⟨message, hrun⟩ := run_expected (α := α) what input ts
  rw [hrun]
  exact .refused (.inl rfl)

/-- A token of the kind is passed; that it is not too long is known if it is no number. -/
theorem sound_expect (kind : Token.Kind) (hkind : kind ≠ .int) :
    Sound (expect kind.label) fun us t => us = [t] ∧ t.kind = kind := by
  intro input ts _
  rcases expect_cases kind input ts with ⟨t, us, rfl, rfl⟩ | ⟨message, hrun⟩
  · rw [run_expect t rfl]
    exact .taken ⟨rfl, rfl⟩ (by simpa using Token.isShort_of_ne hkind) rfl
  · rw [hrun]
    exact .refused (.inl rfl)

theorem sound_int : Sound int IsInt := by
  intro input ts hts
  rcases expect_cases .int input ts with ⟨t, us, rfl, hkind⟩ | ⟨message, hrun⟩
  · obtain ⟨cs, hform, rfl⟩ := (hts t (by simp)).exists_form hkind
    cases hform with
    | @int negative ds hne hd =>
      rw [run_int rfl, readInt_signed negative hne hd]
      by_cases hlong : ds.length > Text.maxDigits
      · rw [if_pos hlong]
        exact .refused (.inl rfl)
      · rw [if_neg hlong]
        exact .taken (.digits negative hne hd)
          (by simpa using (Token.isShort_int _ hd).2 (Nat.not_lt.1 hlong)) rfl
  · rw [int, run_bind_error (r := expect "INT") hrun]
    exact .refused (.inl rfl)

theorem sound_bool : Sound bool fun us b => us = [⟨.bool, if b then "true" else "false"⟩] := by
  refine (sound_expect .bool Token.Kind.noConfusion).bind ?_
  rintro _ t ⟨rfl, hkind⟩ hlex
  obtain ⟨cs, hform, rfl⟩ := (hlex t (by simp)).exists_form hkind
  cases hform with
  | bool b => cases b <;> exact .pure rfl

theorem sound_char : Sound char IsChar := by
  refine (sound_expect .char Token.Kind.noConfusion).bind ?_
  rintro _ t ⟨rfl, hkind⟩ hlex
  obtain ⟨cs, hform, rfl⟩ := (hlex t (by simp)).exists_form hkind
  cases hform with
  | @char c h =>
    have hchar : IsChar [⟨.char, String.ofList ['\'', c, '\'']⟩] (String.singleton c) := .quoted h
    exact .pure (by simpa using hchar)

theorem sound_moreItems {r : Reader α} (hr : Sound r Item) (fuel : Nat) :
    Sound (moreItems r fuel) (More Item) := by
  induction fuel with
  | zero => exact .pure .nil
  | succ fuel ih =>
    intro input ts hts
    rw [moreItems, run_bind (run_head input ts)]
    cases ts with
    | nil => exact .of_pure .nil
    | cons t ts =>
      obtain ⟨ht, hrest⟩ := List.forall_mem_cons.1 hts
      simp only [List.head?_cons]
      by_cases hkind : t.kind = .comma
      · obtain rfl := ht.comma hkind
        have hnext : Sound (do let x ← r; return x :: (← moreItems r fuel))
            fun us xs => More Item (⟨.comma, ","⟩ :: us) xs :=
          hr.bind fun us x hx _ => ih.bind fun us' xs hxs _ =>
            .pure (by simpa using More.cons hx hxs)
        rw [if_pos rfl, run_bind (run_next input _ ts)]
        exact .cons (hnext input ts hrest) (Token.isShort_of_ne Token.Kind.noConfusion)
      · rw [if_neg hkind]
        exact .of_pure .nil

theorem sound_items {r : Reader α} (hr : Sound r Item) (closing : Option Token.Kind) :
    Sound (items r closing) (Listed Item) := by
  intro input ts hts
  rw [items, run_bind (run_head input ts)]
  cases ts with
  | nil => exact .of_pure .nil
  | cons t ts =>
    have hitem :
        Sound (do let x ← r; return x :: (← moreItems r (← get).length)) (Listed Item) := by
      refine hr.bind fun us x hx _ => sound_get.bind fun _ _ hnil _ => ?_
      refine (sound_moreItems hr _).bind fun us' xs hxs _ => .pure ?_
      subst hnil
      simpa using Listed.cons hx hxs
    simp only [List.head?_cons]
    split
    · exact .of_pure .nil
    · exact hitem input _ hts

/-- The items of an array and the bracket that closes it. -/
theorem sound_arrayItems {opening : Token} (h : opening.IsLexeme)
    (hkind : opening.kind = .openArray) :
    Sound (arrayItems opening.text) fun us v =>
      IsValue (opening :: (us ++ [⟨.closeArray, "]"⟩])) v := by
  rcases h.openArray hkind with rfl | rfl
  · rw [arrayItems, if_pos rfl, ← bind_pure_comp]
    refine (sound_items sound_int _).bind fun us ns hns _ => .pure ?_
    rw [List.append_nil]
    exact .ints hns
  · rw [arrayItems, if_neg (by decide), ← bind_pure_comp]
    refine (sound_items sound_char _).bind fun us ss hss _ => .pure ?_
    rw [List.append_nil]
    exact .chars hss

theorem sound_array : Sound array IsValue := by
  refine (sound_expect .openArray Token.Kind.noConfusion).bind ?_
  rintro _ opening ⟨rfl, hopen⟩ hlex
  refine (sound_arrayItems (hlex _ (by simp)) hopen).bind fun us v hv _ => ?_
  refine (sound_expect .closeArray Token.Kind.noConfusion).bind ?_
  rintro _ closing ⟨rfl, hclose⟩ hlex'
  obtain rfl := (hlex' closing (by simp)).closeArray hclose
  exact .pure (by simpa using hv)

theorem outcome_value_object {name inner : String} (hne : name ≠ "")
    (hname : ∀ c ∈ name.toList, Token.isNameChar c = true) (hclose : ')' ∉ inner.toList)
    (input : String) (ts : List Token) :
    Outcome IsPhrase (⟨.object, objectText name inner⟩ :: ts)
      (value.run input (⟨.object, objectText name inner⟩ :: ts)) := by
  have hparts := objectParts_objectText hname inner
  rw [run_value_object hparts]
  cases hargs : (argumentTexts inner).mapM (Argument.read true) with
  | ok vs =>
    exact .taken (.inr (.new hne hname hclose (mapM_eq_ok.1 hargs)))
      (by simpa using Token.isShort_of_ne Token.Kind.noConfusion) rfl
  | error e =>
    obtain ⟨a, ha, hread⟩ := exists_of_mapM_error hargs
    exact .refused (.inr ⟨_, List.mem_cons_self, rfl, a, by rw [hparts]; exact ha, hread⟩)

theorem sound_value : Sound value IsPhrase := by
  intro input ts hts
  rw [value, run_bind (run_head input ts)]
  cases ts with
  | nil => exact outcome_expected _ input []
  | cons t ts =>
    obtain ⟨kind, text⟩ := t
    obtain ⟨cs, hform, ht⟩ := (hts ⟨kind, text⟩ (by simp)).exists_form rfl
    obtain rfl : text = String.ofList cs := (Token.mk.inj ht).2
    cases hform with
    | openArray _ => exact sound_array.mono (fun _ _ => .inl) input _ hts
    | closeArray => exact outcome_expected _ input _
    | comma => exact outcome_expected _ input _
    | int _ _ _ =>
      have hint : Sound (do return ofInt (← int)) IsPhrase :=
        sound_int.bind fun us n hn _ => .pure (.inl (by simpa using .int hn))
      exact hint input _ hts
    | bool _ =>
      have hbool : Sound (do return ofBool (← bool)) IsPhrase :=
        sound_bool.bind fun us b hus _ => .pure (.inl (by subst hus; exact .bool b))
      exact hbool input _ hts
    | char h =>
      have hchar : Sound (do return ⟨.char, .str (← char)⟩) IsPhrase :=
        sound_char.bind fun us s hs _ => .pure (.inl (by simpa using .char hs))
      exact hchar input _ hts
    | @object name inner hne hname hclose =>
      have htext : String.ofList (['n', 'e', 'w', ' '] ++ (name ++ '(' :: (inner ++ [')']))) =
          objectText (String.ofList name) (String.ofList inner) := by
        rw [← String.toList_inj, toList_objectText]
        simp only [String.toList_ofList]
      have hname' : ∀ c ∈ (String.ofList name).toList, Token.isNameChar c = true := by
        simpa using hname
      have hclose' : ')' ∉ (String.ofList inner).toList := by simpa using hclose
      have hobject := outcome_value_object (by simpa using hne) hname' hclose' input ts
      rw [value, run_bind (run_head input _)] at hobject
      rw [htext]
      exact hobject

/-- All tokens are read, or they are refused for a reason. -/
theorem whole_cases (input : String) {ts : List Token} (hlex : ∀ t ∈ ts, t.IsLexeme) :
    (∃ vs, (whole.run input ts).1 = .ok vs ∧ Listed IsPhrase ts vs ∧ ∀ t ∈ ts, t.IsShort) ∨
      ∃ e, (whole.run input ts).1 = .error e ∧ IsExcused ts e := by
  have hvalues := sound_items sound_value none input ts hlex
  generalize hrun : (items value none).run input ts = result at hvalues
  rw [whole]
  cases hvalues with
  | refused h =>
    rw [run_bind_error (r := values) hrun]
    exact .inr ⟨_, rfl, h⟩
  | @taken us rest vs h hshort hsplit =>
    rw [run_bind (r := values) hrun]
    cases rest with
    | nil =>
      rw [List.append_nil] at hsplit
      subst hsplit
      exact .inl ⟨vs, rfl, h, hshort⟩
    | cons t rest => exact .inr ⟨_, rfl, .inl rfl⟩

theorem whole_eq_ok_iff {input : String} {ts : List Token} {vs : List Value}
    (hlex : ∀ t ∈ ts, t.IsLexeme) :
    (whole.run input ts).1 = .ok vs ↔ Listed IsPhrase ts vs ∧ ∀ t ∈ ts, t.IsShort := by
  constructor
  · intro h
    rcases whole_cases input hlex with ⟨ws, hok, hlisted, hshort⟩ | ⟨e, herror, -⟩
    · rw [h] at hok
      obtain rfl := Except.ok.inj hok
      exact ⟨hlisted, hshort⟩
    · rw [h] at herror
      cases herror
  · rintro ⟨hlisted, hshort⟩
    rw [run_whole hlisted hshort]

/-- Without objects all phrases are values. -/
theorem listed_isValue_iff {ts : List Token} {vs : List Value}
    (hplain : ∀ t ∈ ts, t.kind ≠ .object) :
    Listed IsPhrase ts vs ↔ Listed IsValue ts vs := by
  constructor
  · intro h
    refine h.imp fun us v hus hv => hv.resolve_right fun hobject => ?_
    cases hobject
    exact hplain _ (hus _ (List.mem_singleton_self _)) rfl
  · exact fun h => h.imp fun _ _ _ hv => .inl hv

/-- The reader of values accepts the lists of tokens that derive from the grammar and hold no number
of too many digits, and gives the values of the derivation; it refuses all others as malformed. -/
theorem accepts_iff_derived (input : String) {ts : List Token} (hlex : ∀ t ∈ ts, t.IsLexeme)
    (hplain : ∀ t ∈ ts, t.kind ≠ .object) :
    (∀ vs, (whole.run input ts).1 = .ok vs ↔ Listed IsValue ts vs ∧ ∀ t ∈ ts, t.IsShort) ∧
      ((¬ ∃ vs, Listed IsValue ts vs ∧ ∀ t ∈ ts, t.IsShort) →
        ∃ message, (whole.run input ts).1 = .error (.malformed message)) := by
  constructor
  · intro vs
    rw [whole_eq_ok_iff hlex, listed_isValue_iff hplain]
  · intro hnone
    rcases whole_cases input hlex with ⟨vs, -, hlisted, hshort⟩ | ⟨e, herror, hexcused⟩
    · exact absurd ⟨vs, (listed_isValue_iff hplain).1 hlisted, hshort⟩ hnone
    · exact ⟨e.message, by rw [herror, ← hexcused.eq_malformed hplain]⟩

theorem accepts_array_and_refuses_trailing_comma :
    (∀ t ∈ Token.scan "[I:-12, 7], 'x', true", t.IsLexeme ∧ t.kind ≠ .object) ∧
      Listed IsValue (Token.scan "[I:-12, 7], 'x', true")
        [ofArray .int [.int (-12), .int 7], ⟨.char, .str "x"⟩, ofBool true] ∧
      (∀ t ∈ Token.scan "[I:7,]", t.IsLexeme ∧ t.kind ≠ .object) ∧
      ∃ message, (whole.run "[I:7,]" (Token.scan "[I:7,]")).1 = .error (.malformed message) := by
  have hplain : ∀ t ∈ Token.scan "[I:-12, 7], 'x', true", t.kind ≠ .object := by decide
  have hplain' : ∀ t ∈ Token.scan "[I:7,]", t.kind ≠ .object := by decide
  have haccepts := (accepts_iff_derived "" (Token.isLexeme_scan _) hplain).1
    [ofArray .int [.int (-12), .int 7], ⟨.char, .str "x"⟩, ofBool true]
  obtain ⟨haccepts', hrefuses⟩ := accepts_iff_derived "[I:7,]" (Token.isLexeme_scan _) hplain'
  refine ⟨fun t ht => ⟨Token.isLexeme_scan _ t ht, hplain t ht⟩, (haccepts.1 (by rfl)).1,
    fun t ht => ⟨Token.isLexeme_scan _ t ht, hplain' t ht⟩, hrefuses ?_⟩
  rintro ⟨vs, hvs⟩
  exact absurd ((haccepts' vs).2 hvs) nofun

/-- The number one after zeros. -/
def paddedOne (zeros : Nat) : List Char := List.replicate zeros '0' ++ ['1']

theorem number_paddedOne (zeros : Nat) : Token.number false (paddedOne zeros) = 1 := by
  have hfold : ∀ k : Nat, ((List.replicate k '0' ++ ['1']).map Text.digitValue).foldl
      (fun n d => 10 * n + d) 0 = 1 := by
    intro k
    induction k with
    | zero => rfl
    | succ k ih => exact ih
  exact congrArg Int.ofNat (hfold zeros)

theorem isDecimal_paddedOne (zeros : Nat) : ∀ c ∈ paddedOne zeros, Text.isDecimal c = true := by
  refine List.forall_mem_append.2 ⟨fun c hc => ?_, List.forall_mem_singleton.2 rfl⟩
  rw [List.eq_of_mem_replicate hc]
  rfl

/-- Zeros in front count as digits: a number can be as small as one and be refused for its
length. -/
theorem padded_one_derived_and_refused :
    Listed IsValue [⟨.int, String.ofList (paddedOne Text.maxDigits)⟩] [ofInt 1] ∧
      ∃ message, (whole.run "" [⟨.int, String.ofList (paddedOne Text.maxDigits)⟩]).1 =
        .error (.malformed message) := by
  have hd := isDecimal_paddedOne Text.maxDigits
  have hne : paddedOne Text.maxDigits ≠ [] := by simp [paddedOne]
  have hint : IsInt [⟨.int, String.ofList (paddedOne Text.maxDigits)⟩] 1 :=
    number_paddedOne Text.maxDigits ▸ .digits false hne hd
  have hlong : ¬ Token.IsShort ⟨.int, String.ofList (paddedOne Text.maxDigits)⟩ := by
    intro hshort
    have hlength := (Token.isShort_int false hd).1 hshort
    rw [paddedOne, List.length_append, List.length_replicate] at hlength
    exact absurd hlength (Nat.not_succ_le_self _)
  have hlex : ∀ t ∈ [(⟨.int, String.ofList (paddedOne Text.maxDigits)⟩ : Token)], t.IsLexeme := by
    intro t ht
    rw [List.mem_singleton.1 ht, Token.IsLexeme, String.toList_ofList]
    exact .int false hne hd
  refine ⟨Listed.cons (IsValue.int hint) More.nil, ?_⟩
  rcases whole_cases "" hlex with ⟨vs, -, -, hshort⟩ | ⟨e, herror, hexcused⟩
  · exact absurd (hshort _ (List.mem_singleton_self _)) hlong
  · exact ⟨e.message, by rw [herror, ← hexcused.eq_malformed (by simp)]⟩

end Reader

end Value

end Assay
