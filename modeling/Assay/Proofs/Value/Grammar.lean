import Assay.Proofs.Fallible
import Assay.Proofs.Value.Lexeme
import Assay.Value.Reading

/-!
# The grammar of values

`Listed Item ts xs`: the tokens `ts` are phrases of `Item` with commas between them, and `xs` are
what the phrases stand for. Values are numbers, characters, truth values and arrays (`IsValue`), or
objects (`IsObject`). A reader of items is complete if it takes every phrase (`Reads`), and sound if
what it takes is a phrase and what it refuses has a reason (`Sound`). Both pass from the reader of
an item to the reader of a list. The numbers that are read have at most `Text.maxDigits` digits;
this is the one thing in which the readers fall short of the grammar.
-/

namespace Assay

namespace Token

/-- The number that digits write after a sign. -/
def number (negative : Bool) (ds : List Char) : Int :=
  if negative then -(Text.numberOf (ds.map Text.digitValue) : Int)
    else Text.numberOf (ds.map Text.digitValue)

/-- The token is not a number of too many digits. -/
def IsShort (t : Token) : Prop :=
  t.kind = .int → (t.text.toList.filter Text.isDecimal).length ≤ Text.maxDigits

theorem filter_signed (negative : Bool) {ds : List Char} (hd : ∀ c ∈ ds, Text.isDecimal c = true) :
    (signed negative ds).filter Text.isDecimal = ds := by
  have hds := List.filter_eq_self.2 hd
  cases negative with
  | false => exact hds
  | true => rw [signed, List.filter_append, hds]; rfl

theorem isShort_int (negative : Bool) {ds : List Char} (hd : ∀ c ∈ ds, Text.isDecimal c = true) :
    IsShort ⟨.int, String.ofList (signed negative ds)⟩ ↔ ds.length ≤ Text.maxDigits := by
  simp [IsShort, filter_signed negative hd]

theorem Kind.label_injective {k k' : Kind} (h : k.label = k'.label) : k = k' := by
  cases k <;> cases k' <;> first | rfl | exact absurd h (by decide)

end Token

namespace Value

variable {α : Type}

/-- Phrases each after a comma, and what they stand for. -/
inductive More (Item : List Token → α → Prop) : List Token → List α → Prop
  | nil : More Item [] []
  | cons {us ts : List Token} {x : α} {xs : List α} (h : Item us x) (hs : More Item ts xs) :
      More Item (⟨.comma, ","⟩ :: (us ++ ts)) (x :: xs)

/-- Phrases with commas between them, and what they stand for. -/
inductive Listed (Item : List Token → α → Prop) : List Token → List α → Prop
  | nil : Listed Item [] []
  | cons {us ts : List Token} {x : α} {xs : List α} (h : Item us x) (hs : More Item ts xs) :
      Listed Item (us ++ ts) (x :: xs)

/-- A number. -/
inductive IsInt : List Token → Int → Prop
  | digits (negative : Bool) {ds : List Char} (hne : ds ≠ [])
      (hd : ∀ c ∈ ds, Text.isDecimal c = true) :
      IsInt [⟨.int, String.ofList (Token.signed negative ds)⟩] (Token.number negative ds)

/-- A character between apostrophes. -/
inductive IsChar : List Token → String → Prop
  | quoted {c : Char} (h : c ≠ '\'') :
      IsChar [⟨.char, String.ofList ['\'', c, '\'']⟩] (String.singleton c)

/-- A number, a character, a truth value, or an array of numbers or of characters. -/
inductive IsValue : List Token → Value → Prop
  | int {ts : List Token} {n : Int} (h : IsInt ts n) : IsValue ts (ofInt n)
  | char {ts : List Token} {s : String} (h : IsChar ts s) : IsValue ts ⟨.char, .str s⟩
  | bool (b : Bool) : IsValue [⟨.bool, if b then "true" else "false"⟩] (ofBool b)
  | ints {ts : List Token} {ns : List Int} (h : Listed IsInt ts ns) :
      IsValue (⟨.openArray, "[I:"⟩ :: (ts ++ [⟨.closeArray, "]"⟩])) (ofArray .int (ns.map .int))
  | chars {ts : List Token} {ss : List String} (h : Listed IsChar ts ss) :
      IsValue (⟨.openArray, "[C:"⟩ :: (ts ++ [⟨.closeArray, "]"⟩])) (ofArray .char (ss.map .str))

namespace Reader

/-- The texts of the arguments between the parentheses of an object. -/
def argumentTexts (inner : String) : List String :=
  (Text.cutAt ',' inner.toList).map fun a => Text.trim (String.ofList a)

/-- The text of an object with this text between its parentheses. -/
def objectText (name inner : String) : String := "new " ++ name ++ "(" ++ inner ++ ")"

theorem toList_objectText (name inner : String) :
    (objectText name inner).toList =
      ['n', 'e', 'w', ' '] ++ (name.toList ++ '(' :: (inner.toList ++ [')'])) := by
  simp [objectText]

theorem objectParts_objectText {name : String}
    (hname : ∀ c ∈ name.toList, Token.isNameChar c = true) (inner : String) :
    objectParts (objectText name inner).toList = (name, argumentTexts inner) := by
  have hopen : ∀ c ∈ name.toList, decide (c ≠ '(') = true := by
    intro c hc
    have hc := hname c hc
    refine decide_eq_true ?_
    rintro rfl
    exact absurd hc (by decide)
  have htake : (name.toList ++ '(' :: (inner.toList ++ [')'])).takeWhile (· ≠ '(') = name.toList :=
    Text.takeWhile_append_stop hopen (by decide) _
  have hdrop : (name.toList ++ '(' :: (inner.toList ++ [')'])).drop (name.toList.length + 1) =
      inner.toList ++ [')'] := by
    rw [List.drop_append, List.drop_eq_nil_of_le (Nat.le_succ _), Nat.add_sub_cancel_left]
    rfl
  rw [objectParts, toList_objectText, argumentTexts]
  simp only [List.cons_append, List.nil_append, List.drop_succ_cons, List.drop_zero, htake, hdrop,
    List.dropLast_concat, String.ofList_toList]

end Reader

/-- An object whose arguments can be read. -/
inductive IsObject : List Token → Value → Prop
  | new {name inner : String} {vs : List Value} (hne : name ≠ "")
      (hname : ∀ c ∈ name.toList, Token.isNameChar c = true) (hclose : ')' ∉ inner.toList)
      (hargs : List.Forall₂ (fun a v => Argument.read true a = .ok v)
        (Reader.argumentTexts inner) vs) :
      IsObject [⟨.object, Reader.objectText name inner⟩]
        ⟨.object ⟨name⟩, .record [("value", .list (vs.map Value.toDatum))]⟩

/-- A value or an object. -/
def IsPhrase (ts : List Token) (v : Value) : Prop := IsValue ts v ∨ IsObject ts v

section Lists

variable {Item Item' : List Token → α → Prop} {ts : List Token} {xs : List α}

theorem More.imp (h : More Item ts xs)
    (himp : ∀ us x, (∀ t ∈ us, t ∈ ts) → Item us x → Item' us x) :
    More Item' ts xs := by
  induction h with
  | nil => exact .nil
  | cons h _ ih =>
    refine .cons (himp _ _ (fun t ht => by simp [ht]) h)
      (ih fun us x hus => himp us x fun t ht => ?_)
    simp [hus t ht]

/-- The tokens of the phrases may be used to show that they are other phrases. -/
theorem Listed.imp (h : Listed Item ts xs)
    (himp : ∀ us x, (∀ t ∈ us, t ∈ ts) → Item us x → Item' us x) :
    Listed Item' ts xs := by
  cases h with
  | nil => exact .nil
  | cons h hs =>
    refine .cons (himp _ _ (fun t ht => by simp [ht]) h)
      (hs.imp fun us x hus => himp us x fun t ht => ?_)
    simp [hus t ht]

theorem More.length_le (h : More Item ts xs) : xs.length ≤ ts.length := by
  induction h with
  | nil => exact Nat.le_refl 0
  | cons _ _ ih =>
    simp only [List.length_cons, List.length_append]
    omega

end Lists

namespace Reader

variable {β : Type} {input : String} {ts : List Token}

theorem run_pure (x : α) (input : String) (ts : List Token) :
    (pure x : Reader α).run input ts = (.ok x, ts) := rfl

theorem run_bind {r : Reader α} {us : List Token} {x : α}
    (h : r.run input ts = (.ok x, us)) (f : α → Reader β) :
    (r >>= f).run input ts = (f x).run input us := by
  show (do let a ← r; f a : Reader β).run input ts = _
  simp only [run, ReaderT.run_bind, ExceptT.run_bind, StateT.run_bind] at h ⊢
  rw [h]
  rfl

theorem run_bind_error {r : Reader α} {us : List Token} {e : Fault}
    (h : r.run input ts = (.error e, us)) (f : α → Reader β) :
    (r >>= f).run input ts = (.error e, us) := by
  show (do let a ← r; f a : Reader β).run input ts = _
  simp only [run, ReaderT.run_bind, ExceptT.run_bind, StateT.run_bind] at h ⊢
  rw [h]
  rfl

theorem run_head (input : String) (ts : List Token) : head.run input ts = (.ok ts.head?, ts) := rfl

theorem run_next (input : String) (t : Token) (ts : List Token) :
    next.run input (t :: ts) = (.ok (), ts) := rfl

theorem run_get (input : String) (ts : List Token) :
    (get : Reader (List Token)).run input ts = (.ok ts, ts) := rfl

theorem run_expected (what input : String) (ts : List Token) :
    ∃ message, (expected what : Reader α).run input ts = (.error (.malformed message), ts) :=
  ⟨_, rfl⟩

theorem run_expect (t : Token) {label : String} (h : t.kind.label = label) (input : String)
    (ts : List Token) : (expect label).run input (t :: ts) = (.ok t, ts) := by
  rw [expect, run_bind (run_head input (t :: ts))]
  simp only [List.head?_cons, h, if_true]
  rw [run_bind (run_next input t ts), run_pure]

/-- A token of the kind comes next, or the reader that expects one fails. -/
theorem expect_cases (kind : Token.Kind) (input : String) (ts : List Token) :
    (∃ t us, ts = t :: us ∧ t.kind = kind) ∨
      ∃ message, (expect kind.label).run input ts = (.error (.malformed message), ts) := by
  rw [expect, run_bind (run_head input ts)]
  cases ts with
  | nil => exact .inr (run_expected _ input [])
  | cons t us =>
    by_cases hkind : t.kind = kind
    · exact .inl ⟨t, us, rfl, hkind⟩
    · simp only [List.head?_cons, if_neg (mt Token.Kind.label_injective hkind)]
      exact .inr (run_expected _ input _)

theorem run_int {t : Token} (h : t.kind = .int) (input : String) (ts : List Token) :
    int.run input (t :: ts) = (Text.readInt t.text, ts) := by
  have hlabel : t.kind.label = "INT" := by rw [h]; rfl
  rw [int, run_bind (run_expect t hlabel input ts)]
  cases Text.readInt t.text <;> rfl

theorem run_object {name text : String} {args : List String}
    (hparts : objectParts text.toList = (name, args)) (input : String) (ts : List Token) :
    object.run input (⟨.object, text⟩ :: ts) = ((args.mapM (Argument.read true)).map fun vs =>
      (.record [("value", .list (vs.map Value.toDatum))], ⟨name⟩), ts) := by
  rw [object, run_bind (run_expect ⟨.object, text⟩ (rfl : _ = "OBJECT") input ts)]
  simp only [hparts]
  cases args.mapM (Argument.read true) <;> rfl

theorem run_value_object {name text : String} {args : List String}
    (hparts : objectParts text.toList = (name, args)) (input : String) (ts : List Token) :
    value.run input (⟨.object, text⟩ :: ts) = ((args.mapM (Argument.read true)).map fun vs =>
      ⟨.object ⟨name⟩, .record [("value", .list (vs.map Value.toDatum))]⟩, ts) := by
  have hobject := run_object hparts input ts
  rw [value, run_bind (run_head input _)]
  cases hargs : args.mapM (Argument.read true) with
  | ok vs =>
    rw [hargs] at hobject
    exact run_bind hobject _
  | error e =>
    rw [hargs] at hobject
    exact run_bind_error hobject _

/-- The reader takes these tokens and gives `x`. -/
def Reads (r : Reader α) (ts : List Token) (x : α) : Prop :=
  ∀ input rest, r.run input (ts ++ rest) = (.ok x, rest)

/-- The items that follow a first one end where no comma stands. -/
theorem run_moreItems_stop (r : Reader α) (fuel : Nat) (input : String) {rest : List Token}
    (h : ∀ t ∈ rest.head?, t.kind ≠ .comma) :
    (moreItems r fuel).run input rest = (.ok [], rest) := by
  cases fuel with
  | zero => rfl
  | succ fuel =>
    rw [moreItems, run_bind (run_head input rest)]
    cases rest with
    | nil => rfl
    | cons t rest =>
      simp only [List.head?_cons, h t rfl, if_false]
      rfl

/-- What may follow items: nothing, or the token that closes them. -/
inductive Ends : Option Token.Kind → List Token → Prop
  | none : Ends none []
  | closeArray (text : String) (us : List Token) :
      Ends (some .closeArray) (⟨.closeArray, text⟩ :: us)

theorem Ends.not_comma {closing : Option Token.Kind} {rest : List Token} (h : Ends closing rest) :
    ∀ t ∈ rest.head?, t.kind ≠ .comma := by
  intro t ht
  cases h with
  | none => simp at ht
  | closeArray text vs =>
    rw [← Option.some.inj ht]
    exact Token.Kind.noConfusion

/-- Phrases that a reader takes, of which none begins as an array ends. -/
def Takes (r : Reader α) (us : List Token) (x : α) : Prop :=
  Reads r us x ∧ ∃ t ts, us = t :: ts ∧ t.kind ≠ .closeArray

theorem run_moreItems {r : Reader α} {xs : List α} (h : More (Takes r) ts xs) {fuel : Nat}
    (hf : xs.length ≤ fuel) (input : String) {rest : List Token}
    (hr : ∀ t ∈ rest.head?, t.kind ≠ .comma) :
    (moreItems r fuel).run input (ts ++ rest) = (.ok xs, rest) := by
  induction h generalizing fuel with
  | nil => exact run_moreItems_stop r fuel input hr
  | @cons us ts x xs h _ ih =>
    obtain ⟨fuel, rfl⟩ := Nat.exists_eq_succ_of_ne_zero (by simp at hf; omega : fuel ≠ 0)
    have hitem := h.1 input (ts ++ rest)
    have hrest := ih (by simpa using hf)
    rw [List.cons_append, moreItems, run_bind (run_head input _)]
    simp only [List.head?_cons, if_true]
    rw [run_bind (run_next input _ _), List.append_assoc, run_bind hitem, run_bind hrest, run_pure]

/-- A list of items is read up to where it ends. -/
theorem run_items {r : Reader α} {xs : List α} (h : Listed (Takes r) ts xs)
    {closing : Option Token.Kind} (input : String) {rest : List Token} (hends : Ends closing rest) :
    (items r closing).run input (ts ++ rest) = (.ok xs, rest) := by
  cases h with
  | nil =>
    rw [List.nil_append, items, run_bind (run_head input rest)]
    cases hends <;> rfl
  | @cons us ts x xs h hs =>
    obtain ⟨hread, t, us, rfl, hkind⟩ := h
    have hnot : closing ≠ some t.kind := by
      intro hclosing
      rw [hclosing] at hends
      generalize t.kind = kind at hkind hends
      cases hends
      exact hkind rfl
    have hlength := hs.length_le
    have hitem := hread input (ts ++ rest)
    have hrest :=
      run_moreItems hs (by simp; omega : xs.length ≤ (ts ++ rest).length) input hends.not_comma
    rw [items, run_bind (run_head input _)]
    simp only [List.cons_append, List.head?_cons, hnot, if_false]
    rw [← List.cons_append, ← List.cons_append, List.append_assoc, run_bind hitem,
      run_bind (run_get input _), run_bind hrest, run_pure]

/-- An array is read as its items are, and the bracket after them is passed. -/
theorem reads_array {r : Reader α} {xs : List α} (h : Listed (Takes r) ts xs) {opening : String}
    {f : List α → Value} (hf : arrayItems opening = f <$> items r (some .closeArray)) :
    Reads value (⟨.openArray, opening⟩ :: (ts ++ [⟨.closeArray, "]"⟩])) (f xs) := by
  intro input rest
  have hopen := run_expect ⟨.openArray, opening⟩ (rfl : _ = "OPEN_ARRAY") input
    (ts ++ ⟨.closeArray, "]"⟩ :: rest)
  have hbody := run_items h input (Ends.closeArray "]" rest)
  have hend := run_expect ⟨.closeArray, "]"⟩ (rfl : _ = "CLOSE_ARRAY") input rest
  rw [value, run_bind (run_head input _)]
  simp only [List.cons_append, List.append_assoc, List.head?_cons, List.nil_append]
  rw [array, run_bind hopen, hf, ← bind_pure_comp, bind_assoc, run_bind hbody, pure_bind,
    run_bind hend, run_pure]

theorem reads_bool (b : Bool) : Reads bool [⟨.bool, if b then "true" else "false"⟩] b := by
  intro input rest
  have ht := run_expect ⟨.bool, if b then "true" else "false"⟩ (rfl : _ = "BOOL") input rest
  rw [bool, List.singleton_append, run_bind ht, run_pure]
  cases b <;> rfl

theorem reads_char (c : Char) :
    Reads char [⟨.char, String.ofList ['\'', c, '\'']⟩] (String.singleton c) := by
  intro input rest
  have ht := run_expect ⟨.char, String.ofList ['\'', c, '\'']⟩ (rfl : _ = "CHAR") input rest
  rw [char, List.singleton_append, run_bind ht, run_pure]
  simp

theorem reads_value_int {text : String} {n : Int} (h : Reads int [⟨.int, text⟩] n) :
    Reads value [⟨.int, text⟩] (ofInt n) := by
  intro input rest
  rw [value, run_bind (run_head input _)]
  exact run_bind (h input rest) _

theorem reads_value_bool (b : Bool) :
    Reads value [⟨.bool, if b then "true" else "false"⟩] (ofBool b) := by
  intro input rest
  rw [value, run_bind (run_head input _)]
  exact run_bind (reads_bool b input rest) _

theorem reads_value_char (c : Char) :
    Reads value [⟨.char, String.ofList ['\'', c, '\'']⟩] ⟨.char, .str (String.singleton c)⟩ := by
  intro input rest
  rw [value, run_bind (run_head input _)]
  exact run_bind (reads_char c input rest) _

end Reader

end Value

end Assay
