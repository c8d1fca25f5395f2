import Assay.Instr.Listing
import Assay.Proofs.Fallible
import Assay.Proofs.Text

/-!
# Real instructions and their mnemonics

A real instruction is documented under a mnemonic, which is its first word or, for a family of
instructions, the word of the family. For each instruction that can be read it is said when its
real form is shown, when it is refused as unsupported, and when the two names agree.
-/

namespace Assay

namespace Text

/-- What stands before the first blank of a text. -/
def firstWord (t : String) : String := String.ofList (t.toList.takeWhile (· ≠ ' '))

theorem firstWord_eq_self {t : String} (h : ' ' ∉ t.toList) : firstWord t = t := by
  rw [firstWord, List.takeWhile_eq_self_iff.2, String.ofList_toList]
  intro c hc
  exact decide_eq_true fun heq => h (heq ▸ hc)

theorem firstWord_of_starts {w t : String} (hw : ' ' ∉ w.toList)
    (ht : w.toList ++ [' '] <+: t.toList) :
    firstWord t = w := by
  obtain ⟨cs, hcs⟩ := ht
  have hstop : ∀ c ∈ w.toList, decide (c ≠ ' ') = true :=
    fun c hc => decide_eq_true fun heq => hw (heq ▸ hc)
  rw [firstWord, ← hcs, List.append_assoc, List.singleton_append,
    takeWhile_append_stop hstop (by simp), String.ofList_toList]

end Text

namespace Op

/-! ### Operations by what can be shown of them -/

/-- There is a real instruction for the operation on its types. -/
def IsSupported : Op → Prop
  | push v => v.type ∈ [Ty.int, .reference]
  | dup w => w.val = 1
  | arrayStore t | store t _ | load t _ => t ∈ [Ty.int, .reference]
  | arrayLoad t => t ∈ [Ty.int, .reference, .char]
  | cast s t => s = .int ∧ t = .short
  | binary t _ => t = .int
  | _ => True

/-- The operation is supported and still not shown. -/
def IsUnshown : Op → Prop
  | invokeVirtual _ => True
  | push v => v.type = .reference ∧ v.content ≠ .null
  | new c => c.text? = none
  | compare c _ | compareZero c _ => c ∉ conditionWords ∧ c ≠ "is" ∧ c ≠ "isnot"
  | _ => False

/-- The mnemonic of the operation belongs to other instructions than the one that is shown. -/
def IsMisnamed : Op → Prop
  | push v => v.type = .int ∧ v.content.asInt? = some 5
  | compare c _ | compareZero c _ => c = "is" ∨ c = "isnot"
  | _ => False

end Op

/-- A mnemonic stands for the family to which a word belongs. -/
def Generalises (mnemonic word : String) : Prop :=
  mnemonic = "iconst_i" ∧
      word ∈ ["iconst_m1", "iconst_0", "iconst_1", "iconst_2", "iconst_3", "iconst_4", "iconst_5"] ∨
    (∃ access ∈ ["iload", "aload", "istore", "astore"],
      mnemonic = access ++ "_n" ∧ (access ++ "_").toList <+: word.toList) ∨
    mnemonic = "if_icmp_cond" ∧ "if_icmp".toList <+: word.toList ∨
    mnemonic = "if_cond" ∧ word ∈ Op.conditionWords.map ("if" ++ ·)

instance (mnemonic word : String) : Decidable (Generalises mnemonic word) :=
  inferInstanceAs (Decidable (_ ∨ _ ∨ _ ∨ _))

/-- A mnemonic names an instruction: it is its first word or the family of that. -/
def Names (mnemonic text : String) : Prop :=
  mnemonic = Text.firstWord text ∨ Generalises mnemonic (Text.firstWord text)

instance (mnemonic text : String) : Decidable (Names mnemonic text) :=
  inferInstanceAs (Decidable (_ ∨ _))

theorem Names.of_firstWord {w t : String} (h : Text.firstWord t = w) : Names w t := .inl h.symm

theorem Names.self {w : String} (h : ' ' ∉ w.toList) : Names w w :=
  .of_firstWord (Text.firstWord_eq_self h)

namespace Instr

/-! ### Returns that can be read -/

/-- A value that the operation returns can stand on the stack. -/
def ReturnsStack : Op → Prop
  | .ret (some t) => t.isStack = true
  | _ => True

/-- Each instruction that a reader gives returns what can stand on the stack. -/
def ReadsReturns (r : Except Fault Instr) : Prop := ∀ i, r = .ok i → ReturnsStack i.op

namespace ReadsReturns

variable {name : String} {j : Json}

theorem bind {α : Type} {x : Except Fault α} {f : α → Except Fault Instr}
    (h : ∀ a, ReadsReturns (f a)) :
    ReadsReturns (x >>= f) := by
  intro i hi
  obtain ⟨a, -, ha⟩ := bind_eq_ok.1 hi
  exact h a i ha

theorem checked {offset : Json} {slots : List Slot} {op : Op} (h : ReturnsStack op) :
    ReadsReturns (checked name offset slots op) :=
  bind fun _ _ hi => Except.ok.inj hi ▸ h

theorem ofField {make : Bool → FieldRef → Op} (h : ∀ b f, ReturnsStack (make b f)) :
    ReadsReturns (ofField name make j) :=
  bind fun _ => bind fun _ => bind fun _ => bind fun _ => checked (h _ _)

theorem ofType {make : Ty → Op} (h : ∀ t, ReturnsStack (make t)) :
    ReadsReturns (ofType name make j) :=
  bind fun _ => bind fun _ => bind fun _ => checked (h _)

theorem ofTypeAndNumber {slot : String} {make : Ty → Whole → Op}
    (h : ∀ t n, ReturnsStack (make t n)) :
    ReadsReturns (ofTypeAndNumber name slot make j) :=
  bind fun _ => bind fun _ => bind fun _ => bind fun _ => checked (h _ _)

theorem ofCondition {make : String → Whole → Op} (h : ∀ c n, ReturnsStack (make c n)) :
    ReadsReturns (ofCondition name make j) :=
  bind fun _ => bind fun _ => bind fun _ => checked (h _ _)

theorem ofCall {make : MethodRef → Op} (h : ∀ m, ReturnsStack (make m)) :
    ReadsReturns (ofCall name make j) :=
  bind fun _ => bind fun _ => bind fun _ => checked (h _)

theorem ofReturn (offset : Json) (t : Option Ty) : ReadsReturns (ofReturn offset t) := by
  intro i hi
  rw [Instr.ofReturn] at hi
  split at hi
  next ht =>
    cases Except.ok.inj hi
    cases t with
    | none => trivial
    | some t => exact ht
  next => cases hi

theorem reportWhole {r : Except Fault Instr} (h : ReadsReturns r) :
    ReadsReturns (reportWhole j r) := by
  cases r with
  | ok i => exact h
  | error e => exact fun _ hi => nomatch hi

theorem readCall {access : Json} {r : Except Fault Instr} (h : readCall access j = some r) :
    ReadsReturns r := by
  unfold Instr.readCall at h
  split at h <;> cases h
  · exact ofCall fun _ => trivial
  · exact ofCall fun _ => trivial
  · exact bind fun _ => bind fun _ => bind fun _ => bind fun _ => checked trivial
  · exact bind fun _ => bind fun _ => bind fun _ => bind fun _ => bind fun _ => checked trivial

theorem readPlain {word : String} {r : Except Fault Instr} (h : readPlain word j = some r) :
    ReadsReturns r := by
  unfold Instr.readPlain at h
  split at h <;> cases h
  · exact ofField fun _ _ => trivial
  · exact ofField fun _ _ => trivial
  · exact bind fun _ => bind fun _ => bind fun _ => checked trivial
  · exact ofTypeAndNumber fun _ _ => trivial
  · exact bind fun _ => bind fun _ => checked trivial
  · exact ofType fun _ => trivial
  · exact ofType fun _ => trivial
  · exact bind fun _ => bind fun _ => bind fun _ => bind fun _ => bind fun _ => checked trivial
  · exact ofTypeAndNumber fun _ _ => trivial
  · exact ofTypeAndNumber fun _ _ => trivial
  · exact bind fun _ => checked trivial
  · exact ofCondition fun _ _ => trivial
  · exact ofCondition fun _ _ => trivial
  · exact bind fun _ => bind fun _ => bind fun _ => bind fun _ => bind fun _ => checked trivial
  · exact bind fun _ => bind fun _ => checked trivial
  · exact bind fun _ => checked trivial
  · exact bind fun _ => bind fun _ => bind fun _ => checked trivial
  · exact bind fun _ => bind fun _ => checked trivial
  · split
    · exact bind fun _ => ofReturn _ _
    · exact bind fun _ => bind fun _ => ofReturn _ _

end ReadsReturns

theorem returnsStack_of_ofJson {j : Json} {i : Instr} (h : ofJson j = .ok i) :
    ReturnsStack i.op := by
  have hreads : ReadsReturns (ofJson j) := by
    refine ReadsReturns.bind fun word => ?_
    dsimp only
    split
    · refine ReadsReturns.bind fun access => ?_
      split
      next hr => exact .reportWhole (.readCall hr)
      next => exact fun _ hi => nomatch hi
    · split
      next hr => exact .reportWhole (.readPlain hr)
      next => exact fun _ hi => nomatch hi
    · exact fun _ hi => nomatch hi
  exact hreads i h

/-! ### When the real instruction is shown -/

/-- What becomes of an instruction: its real form is shown, or refused, or refused as
unsupported. -/
def Outcome (i : Instr) : Prop :=
  (i.op.IsSupported ∧ ¬ i.op.IsUnshown ∧ ∃ t, i.rendering = .ok t) ∨
  (i.op.IsSupported ∧ i.op.IsUnshown ∧ ∃ f, i.rendering = .error f ∧ f.kind ≠ .unsupported) ∨
  (¬ i.op.IsSupported ∧ ∃ f, i.rendering = .error f ∧ f.kind = .unsupported)

theorem outcome_push (offset : Json) (v : Value) : Outcome ⟨offset, .push v⟩ := by
  obtain ⟨type, content⟩ := v
  cases type with
  | int => exact .inl ⟨by simp [Op.IsSupported], by simp [Op.IsUnshown], _, rfl⟩
  | reference =>
    by_cases hnull : content = .null
    · subst hnull
      exact .inl ⟨by simp [Op.IsSupported], by simp [Op.IsUnshown], _, rfl⟩
    · refine .inr (.inl ⟨by simp [Op.IsSupported], ⟨rfl, hnull⟩, ?_⟩)
      simp [rendering, Fault.violated]
  | _ => exact .inr (.inr ⟨by simp [Op.IsSupported], _, rfl, rfl⟩)

theorem jumpName?_eq_none_iff {stem same other c : String} :
    Op.jumpName? stem same other c = none ↔ c ∉ Op.conditionWords ∧ c ≠ "is" ∧ c ≠ "isnot" := by
  unfold Op.jumpName?
  split
  next hc => simp [hc]
  next hc =>
    split
    next his => simp [his]
    next his => simp [hc, his]

/-- A jump is shown exactly when its condition has a name. -/
theorem outcome_jump {i : Instr} {name? : Option String} {c : String} {t : Whole}
    (hop : i.op.IsSupported) (hname : name? = none ↔ i.op.IsUnshown)
    (hr : i.rendering = Op.jumpText name? c t) : i.Outcome := by
  cases name? with
  | some n => exact .inl ⟨hop, hname.not.1 (Option.some_ne_none n), _, hr⟩
  | none => exact .inr (.inl ⟨hop, hname.1 rfl, _, hr, nofun⟩)

theorem rendering_cast {offset : Json} {s t : Ty} (h : ¬ (s = .int ∧ t = .short)) :
    rendering ⟨offset, .cast s t⟩ = .error (unhandled ⟨offset, .cast s t⟩) := by
  have hst : s = .int → t = .short → False := fun hs ht => h ⟨hs, ht⟩
  simp only [rendering]

theorem outcome_of_returnsStack (i : Instr) (hret : ReturnsStack i.op) : i.Outcome := by
  obtain ⟨offset, op⟩ := i
  cases op with
  | push v => exact outcome_push offset v
  | dup w =>
    by_cases hw : w.val = 1
    · exact .inl ⟨hw, id, "dup", if_pos hw⟩
    · exact .inr (.inr ⟨hw, _, if_neg hw, rfl⟩)
  | arrayStore t | store t _ | load t _ | arrayLoad t | binary t _ =>
    cases t <;>
      simp [Outcome, Op.IsSupported, Op.IsUnshown, rendering, unhandled, Fault.unsupported]
  | cast s t =>
    by_cases hst : s = .int ∧ t = .short
    · obtain ⟨rfl, rfl⟩ := hst
      exact .inl ⟨⟨rfl, rfl⟩, id, _, rfl⟩
    · exact .inr (.inr ⟨hst, _, rendering_cast hst, rfl⟩)
  | invokeVirtual m => exact .inr (.inl ⟨trivial, trivial, _, rfl, nofun⟩)
  | compare c t => exact outcome_jump trivial jumpName?_eq_none_iff rfl
  | compareZero c t => exact outcome_jump trivial jumpName?_eq_none_iff rfl
  | new c =>
    cases hc : c.text? with
    | some n => exact .inl ⟨trivial, by simp [Op.IsUnshown, hc], by simp [rendering, hc]⟩
    | none => exact .inr (.inl ⟨trivial, hc, by simp [rendering, hc, Fault.noMember]⟩)
  | ret t =>
    cases t with
    | none => exact .inl ⟨trivial, id, _, rfl⟩
    | some t =>
      cases t with
      | int | long | double | reference => exact .inl ⟨trivial, id, _, rfl⟩
      | _ => cases hret
  | _ => exact .inl ⟨trivial, id, _, rfl⟩

theorem limited_eq_or (i : Instr) (r : Except Fault String) :
    i.limited r = r ∨ i.limited r = .error Text.tooLong := ite_eq_or_eq _ _ _

theorem limited_ok (i : Instr) (t : String) :
    i.limited (.ok t) = if i.op.data.all Datum.isWritable then .ok t else .error Text.tooLong := rfl

theorem limited_unsupported (i : Instr) {f : Fault} (hf : f.kind = .unsupported) :
    i.limited (.error f) =
      if (Datum.ofJson i.offset :: i.op.data).all Datum.isWritable then .error f
        else .error Text.tooLong := by
  simp only [limited, hf]

theorem rendering_of_real {i : Instr} {t : String} (h : i.real = .ok t) : i.rendering = .ok t := by
  rcases i.limited_eq_or i.rendering with heq | heq
  · exact heq ▸ h
  · cases heq.symm.trans h

theorem real_of_rendering {i : Instr} {t : String} (h : i.rendering = .ok t)
    (hdata : i.op.data.all Datum.isWritable = true) : i.real = .ok t := by
  rw [real, h, limited_ok, if_pos hdata]

/-- The real form is shown where the operation has one and all its numbers can be written. -/
theorem exists_real_iff {i : Instr} (hi : i.Outcome) :
    (∃ t, i.real = .ok t) ↔
      i.op.IsSupported ∧ ¬ i.op.IsUnshown ∧ i.op.data.all Datum.isWritable = true := by
  constructor
  · rintro ⟨t, ht⟩
    have hr := rendering_of_real ht
    rcases hi with ⟨hop, hshown, -⟩ | ⟨-, -, f, hf, -⟩ | ⟨-, f, hf, -⟩
    · refine ⟨hop, hshown, ?_⟩
      by_contra hlong
      rw [real, hr, limited_ok, if_neg hlong] at ht
      cases ht
    · cases hf.symm.trans hr
    · cases hf.symm.trans hr
  · rintro ⟨hop, hshown, hlong⟩
    rcases hi with ⟨-, -, t, ht⟩ | ⟨-, hnot, -⟩ | ⟨hnot, -⟩
    · exact ⟨t, real_of_rendering ht hlong⟩
    · exact absurd hnot hshown
    · exact absurd hop hnot

/-- Support is missed where there is none and the full name can be written. -/
theorem exists_unsupported_iff {i : Instr} (hi : i.Outcome) :
    (∃ f, i.real = .error f ∧ f.kind = .unsupported) ↔
      ¬ i.op.IsSupported ∧ (Datum.ofJson i.offset :: i.op.data).all Datum.isWritable = true := by
  constructor
  · rintro ⟨f, hf, hkind⟩
    -- A number that is too long is another kind of fault, so the refusal is that of the rendering.
    have hr : i.rendering = .error f := by
      rcases i.limited_eq_or i.rendering with heq | heq
      · exact heq ▸ hf
      · cases heq.symm.trans hf
        cases hkind
    rcases hi with ⟨-, -, t, ht⟩ | ⟨-, -, g, hg, hother⟩ | ⟨hop, -⟩
    · cases ht.symm.trans hr
    · cases hg.symm.trans hr
      exact absurd hkind hother
    · refine ⟨hop, ?_⟩
      by_contra hlong
      rw [real, hr, limited_unsupported i hkind, if_neg hlong] at hf
      cases hf
      cases hkind
  · rintro ⟨hop, hlong⟩
    rcases hi with ⟨hsup, -⟩ | ⟨hsup, -⟩ | ⟨-, f, hf, hkind⟩
    · exact absurd hsup hop
    · exact absurd hsup hop
    · exact ⟨f, by rw [real, hf, limited_unsupported i hkind, if_pos hlong], hkind⟩

/-! ### When the mnemonic names what is shown -/

section Constants

variable {d : Datum} {n : Int}

theorem beq_int (h : d.asInt? = some n) (k : Int) : (d == .int k) = (n == k) := by
  cases d with
  | int m => cases h; rfl
  | bool b => cases h; rfl
  | _ => cases h

theorem rel_of_asInt? {e : Datum} {m : Int} (hd : d.asInt? = some n)
    (he : e.asInt? = some m) (r : Rel) :
    Datum.rel r d e = .ok (r.onInt n m) := by
  cases d with
  | int k => cases e <;> cases hd <;> cases he <;> rfl
  | bool b => cases e <;> cases hd <;> cases he <;> rfl
  | _ => cases hd

theorem constantMnemonic_eq (h : d.asInt? = some n) :
    constantMnemonic d = .ok (if -2 < n ∧ n < 5 then "iconst_i" else "ldc") := by
  rw [constantMnemonic, rel_of_asInt? rfl h, rel_of_asInt? h rfl]
  by_cases hn : -2 < n ∧ n < 5
  · simp [Rel.onInt, hn]
  · simp [Rel.onInt, hn]

/-- Only numbers have the mnemonic of a constant. -/
theorem constantMnemonic_ne_ok (h : d.asInt? = none) (hfloat : ∀ x, d ≠ .float x) (w : String) :
    constantMnemonic d ≠ .ok w := by
  cases d with
  | int k => cases h
  | bool b => cases h
  | float x => exact absurd rfl (hfloat x)
  | _ => exact nofun

theorem constantText_of_short (h : d.asInt? = some n) (hn : n ∈ [0, 1, 2, 3, 4, 5]) :
    Op.constantText d = s!"iconst_{n}" := by
  have hfind : [0, 1, 2, 3, 4, 5].find? (fun k => d == .int k) = some n := by
    simp only [beq_int h]
    simp only [List.mem_cons, List.not_mem_nil, or_false] at hn
    rcases hn with rfl | rfl | rfl | rfl | rfl | rfl <;> rfl
  have hne : ¬ (d == .int (-1)) = true := by
    rw [beq_int h, beq_iff_eq]
    rintro rfl
    exact absurd hn (by decide)
  simp only [Op.constantText, if_neg hne, hfind]

theorem constantText_of_long (h : d.asInt? = some n) (hn : n < -1 ∨ 5 < n) :
    Op.constantText d = s!"ldc [{d.text}]" := by
  have hfind : [0, 1, 2, 3, 4, 5].find? (fun k => d == .int k) = none := by
    simp only [beq_int h, List.find?_eq_none, List.mem_cons, List.not_mem_nil, or_false, beq_iff_eq]
    omega
  have hne : ¬ (d == .int (-1)) = true := by
    rw [beq_int h, beq_iff_eq]
    omega
  simp only [Op.constantText, if_neg hne, hfind]

theorem names_constant (h : d.asInt? = some n) :
    Names (if -2 < n ∧ n < 5 then "iconst_i" else "ldc") (Op.constantText d) ↔ n ≠ 5 := by
  by_cases hlong : n < -1 ∨ 5 < n
  · have hword : Text.firstWord (Op.constantText d) = "ldc" := by
      rw [constantText_of_long h hlong]
      exact Text.firstWord_of_starts (by decide) (by simp [toString])
    rw [if_neg (by omega)]
    exact iff_of_true (.of_firstWord hword) (by omega)
  · rcases (by omega : n = -1 ∨ n = 0 ∨ n = 1 ∨ n = 2 ∨ n = 3 ∨ n = 4 ∨ n = 5) with
      rfl | rfl | rfl | rfl | rfl | rfl | rfl
    · have : Op.constantText d = "iconst_m1" := if_pos (beq_int h _)
      rw [this]; decide
    all_goals
      rw [constantText_of_short h (by decide)]
      decide

end Constants

theorem names_of_starts {w t : String} (hw : ' ' ∉ w.toList)
    (ht : w.toList ++ [' '] <+: t.toList) : Names w t :=
  .of_firstWord (Text.firstWord_of_starts hw ht)

theorem not_mem_shown (n : Whole) : ' ' ∉ n.shown.toList := by
  cases n with
  | int n => exact Text.not_mem_toString (by decide) (by decide) n
  | flag b => cases b <;> decide

/-- The short forms of an access to a variable have the word of their family. -/
theorem names_indexed {word : String}
    (hword : word ∈ ["iload", "aload", "istore", "astore"]) (n : Whole) :
    Names (indexedMnemonic word n) (Op.shortIndexed word n) := by
  have hblank : ' ' ∉ word.toList := by
    simp only [List.mem_cons, List.not_mem_nil, or_false] at hword
    rcases hword with rfl | rfl | rfl | rfl <;> decide
  unfold indexedMnemonic Op.shortIndexed
  split
  next =>
    refine .inr (.inr (.inl ⟨word, hword, rfl, ?_⟩))
    rw [Text.firstWord_eq_self (by simp [toString, hblank, not_mem_shown])]
    simp [toString]
  next => exact names_of_starts hblank (by simp [toString])

theorem names_jumpText {name : String} (hname : ' ' ∉ name.toList) (w : String) (t : Whole) :
    Names w s!"{name} {t.shown}" ↔ w = name ∨ Generalises w name := by
  rw [Names, Text.firstWord_of_starts hname (by simp [toString])]

/-- The mnemonic of a family of jumps fits the conditions on numbers only. -/
theorem names_jump {stem same other family c text : String} {t : Whole}
    (hnumbers : ∀ c ∈ Op.conditionWords, ' ' ∉ (stem ++ c).toList ∧ Generalises family (stem ++ c))
    (hreferences : ∀ n ∈ [same, other], ' ' ∉ n.toList ∧ ¬ (family = n ∨ Generalises family n))
    (h : Op.jumpText (Op.jumpName? stem same other c) c t = .ok text) :
    Names family text ↔ ¬ (c = "is" ∨ c = "isnot") := by
  unfold Op.jumpName? at h
  split at h
  next hc =>
    obtain ⟨hblank, hfamily⟩ := hnumbers c hc
    rw [← Except.ok.inj h, names_jumpText hblank]
    refine iff_of_true (.inr hfamily) ?_
    rintro (rfl | rfl)
    · exact absurd hc (by decide)
    · exact absurd hc (by decide)
  next =>
    split at h
    next his =>
      obtain ⟨hblank, hnot⟩ := hreferences same (by simp)
      rw [← Except.ok.inj h, names_jumpText hblank]
      exact iff_of_false hnot (not_not_intro (.inl his))
    next =>
      split at h
      next hisnot =>
        obtain ⟨hblank, hnot⟩ := hreferences other (by simp)
        rw [← Except.ok.inj h, names_jumpText hblank]
        exact iff_of_false hnot (not_not_intro (.inr hisnot))
      next => cases h

/-- An operation without a mnemonic of its own is documented under its real form. -/
theorem names_real {i : Instr} {t w : String} (hown : i.mnemonic = i.real) (ht : i.real = .ok t)
    (hw : i.mnemonic = .ok w) (hblank : ' ' ∉ t.toList) : Names w t := by
  have heq : w = t := Except.ok.inj (hw.symm.trans (hown.trans ht))
  exact heq ▸ Names.self (heq ▸ hblank)

theorem names_push {offset : Json} {v : Value} {t w : String} (hfloat : ∀ x, v.content ≠ .float x)
    (ht : rendering ⟨offset, .push v⟩ = .ok t) (hw : mnemonic ⟨offset, .push v⟩ = .ok w) :
    Names w t ↔ ¬ (Op.push v).IsMisnamed := by
  obtain ⟨type, content⟩ := v
  cases type with
  | int =>
    cases hn : content.asInt? with
    | none => exact absurd hw (constantMnemonic_ne_ok hn hfloat w)
    | some n =>
      have hw : w = if -2 < n ∧ n < 5 then "iconst_i" else "ldc" :=
        Except.ok.inj (hw.symm.trans (constantMnemonic_eq hn))
      rw [← Except.ok.inj ht, hw, names_constant hn]
      simp [Op.IsMisnamed, hn]
  | reference =>
    cases content with
    | null => cases ht; cases hw; exact iff_of_true (.self (by decide)) fun h => nomatch h.1
    | _ => cases ht
  | _ => cases ht

/-- The names agree but for a few operations. -/
theorem names_iff {i : Instr} {t w : String} (hfloat : ∀ v x, i.op = .push v → v.content ≠ .float x)
    (ht : i.real = .ok t) (hw : i.mnemonic = .ok w) : Names w t ↔ ¬ i.op.IsMisnamed := by
  have hr := rendering_of_real ht
  obtain ⟨offset, op⟩ := i
  cases op with
  | push v => exact names_push (fun x => hfloat v x rfl) hr hw
  | compare c n | compareZero c n =>
    cases hw
    exact names_jump (by decide) (by decide) hr
  | put s f | get s f =>
    cases hr
    cases hw
    cases s <;>
      exact iff_of_true (names_of_starts (by decide) (by simp [toString, Op.fieldWord])) id
  | newArray type d =>
    cases hr
    cases hw
    split <;> exact iff_of_true (names_of_starts (by decide) (by simp [toString])) id
  | store type n | load type n =>
    cases type <;> cases hr <;> cases hw <;> exact iff_of_true (names_indexed (by decide) n) id
  | invokeStatic m | invokeInterface m n | invokeSpecial m b | incr n a | goto n =>
    cases hr
    cases hw
    exact iff_of_true (names_of_starts (by decide) (by simp [toString])) id
  | invokeVirtual m => cases hr
  | new c =>
    cases c with
    | str n =>
      cases hr
      cases hw
      exact iff_of_true (names_of_starts (by decide) (by simp)) id
    | _ => cases hr
  | throw =>
    cases hr
    cases hw
    exact iff_of_true (.self (by decide)) id
  -- The rest is documented under its real form.
  | dup n =>
    by_cases hn : n.val = 1
    · cases (if_pos hn).symm.trans hr
      exact iff_of_true (names_real rfl ht hw (by decide)) id
    · cases (if_neg hn).symm.trans hr
  | cast source target =>
    by_cases hcast : source = .int ∧ target = .short
    · obtain ⟨rfl, rfl⟩ := hcast
      cases hr
      exact iff_of_true (names_real rfl ht hw (by decide)) id
    · cases (rendering_cast hcast).symm.trans hr
  | arrayStore type | arrayLoad type =>
    cases type <;> cases hr <;> exact iff_of_true (names_real rfl ht hw (by decide)) id
  | binary type a =>
    cases type <;> cases hr
    cases a <;> exact iff_of_true (names_real rfl ht hw (by decide)) id
  | arrayLength =>
    cases hr
    exact iff_of_true (names_real rfl ht hw (by decide)) id
  | ret type =>
    cases type with
    | none =>
      cases hr
      exact iff_of_true (names_real rfl ht hw (by decide)) id
    | some type =>
      cases type <;> cases hr <;> exact iff_of_true (names_real rfl ht hw (by decide)) id

/-- An instruction that can be read is shown as a real one where its operation is supported, is none
of those that are never shown, and holds no number that is too long; only missing support is
reported as such. Where both names are given they agree, apart from the constant five and the
comparisons of references. -/
theorem real_named_unless_misnamed {j : Json} {i : Instr} (h : ofJson j = .ok i) :
    ((∃ t, i.real = .ok t) ↔
      i.op.IsSupported ∧ ¬ i.op.IsUnshown ∧ i.op.data.all Datum.isWritable = true) ∧
    ((∃ f, i.real = .error f ∧ f.kind = .unsupported) ↔
      ¬ i.op.IsSupported ∧ (Datum.ofJson i.offset :: i.op.data).all Datum.isWritable = true) ∧
    ((∀ v x, i.op = .push v → v.content ≠ .float x) →
      ∀ t w, i.real = .ok t → i.mnemonic = .ok w → (Names w t ↔ ¬ i.op.IsMisnamed)) := by
  have hi := outcome_of_returnsStack i (returnsStack_of_ofJson h)
  exact ⟨exists_real_iff hi, exists_unsupported_iff hi, fun hfloat _ _ => names_iff hfloat⟩

/-- The record of an instruction at the start of a method. -/
def record (word : String) (entries : List (String × Json)) : Json :=
  .obj (("opr", .str word) :: ("offset", .int 0) :: entries)

theorem isWritable_digit {n : Nat} (h : n < 10) : [Datum.int n].all Datum.isWritable = true := by
  have hlength : (Nat.toDigits 10 n).length ≤ 1 := (Text.length_toDigits_le Nat.one_pos n).2 h
  have hwritable : Text.isWritable n = true := Text.isWritable_iff.2 (hlength.trans (by decide))
  rw [List.all_cons, Datum.isWritable, hwritable]
  rfl

/-- The fourth variable is loaded by a short form. -/
theorem load_three_named :
    ∃ i, ofJson (record "load" [("type", .str "int"), ("index", .int 3)]) = .ok i ∧
      (∃ t, i.real = .ok t) ∧ (¬ ∃ f, i.real = .error f ∧ f.kind = .unsupported) ∧
      ∀ t w, i.real = .ok t → i.mnemonic = .ok w → Names w t := by
  have h : ofJson (record "load" [("type", .str "int"), ("index", .int 3)]) =
      .ok ⟨.int 0, .load .int (.int 3)⟩ := rfl
  have hsupported : (Op.load .int (.int 3)).IsSupported := by simp [Op.IsSupported]
  obtain ⟨hreal, hunsupported, hnames⟩ := real_named_unless_misnamed h
  exact ⟨_, h, hreal.2 ⟨hsupported, id, isWritable_digit (by decide)⟩,
    fun hf => (hunsupported.1 hf).1 hsupported, fun t w ht hw => (hnames nofun t w ht hw).2 id⟩

/-- A call of an object's method is accepted and then neither shown nor refused as unsupported; the
constant five and the comparisons of references are shown and have the mnemonic of others. -/
theorem accepted_unshown_or_misnamed :
    (∃ i f, ofJson (record "invoke" [("access", .str "virtual"),
        ("method",
          .obj [("ref", .obj [("name", .str "Tank")]), ("name", .str "fill"), ("args", .arr []),
            ("returns", .null)])]) = .ok i ∧
      i.real = .error f ∧ f.kind = .noMember) ∧
    (∃ i, ofJson (record "push" [("value", .obj [("type", .str "integer"), ("value", .int 5)])]) =
        .ok i ∧
      i.real = .ok "iconst_5" ∧ i.mnemonic = .ok "ldc" ∧ ¬ Names "ldc" "iconst_5") ∧
    (∃ i, ofJson (record "if" [("condition", .str "is"), ("target", .int 7)]) = .ok i ∧
      i.real = .ok "if_acmpeq 7" ∧ i.mnemonic = .ok "if_icmp_cond" ∧
      ¬ Names "if_icmp_cond" "if_acmpeq 7") ∧
    (∃ i, ofJson (record "ifz" [("condition", .str "is"), ("target", .int 7)]) = .ok i ∧
      i.real = .ok "ifnull 7" ∧ i.mnemonic = .ok "if_cond" ∧ ¬ Names "if_cond" "ifnull 7") := by
  have hfive : Op.constantText (.int 5) = "iconst_5" :=
    constantText_of_short (n := 5) rfl (by decide)
  have hdata : [Datum.int 5].all Datum.isWritable = true := isWritable_digit (by decide)
  have htarget : [Datum.int 7].all Datum.isWritable = true := isWritable_digit (by decide)
  refine ⟨?virtual, ?five, ?compare, ?compareZero⟩
  case virtual =>
    exact ⟨⟨.int 0, .invokeVirtual ⟨.str "Tank", .str "fill", [], none⟩⟩, _, rfl, rfl, rfl⟩
  case five =>
    exact ⟨⟨.int 0, .push ⟨.int, .int 5⟩⟩, rfl, real_of_rendering (congrArg Except.ok hfive) hdata,
      rfl, by decide⟩
  case compare =>
    exact ⟨⟨.int 0, .compare "is" (.int 7)⟩, rfl, real_of_rendering rfl htarget, rfl, by decide⟩
  case compareZero =>
    exact ⟨⟨.int 0, .compareZero "is" (.int 7)⟩, rfl, real_of_rendering rfl htarget, rfl, by decide⟩

end Instr

end Assay
