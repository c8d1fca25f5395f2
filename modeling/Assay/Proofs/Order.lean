import Mathlib.Data.List.Lex
import Mathlib.Data.Prod.Lex
import Mathlib.Data.String.Basic
import Assay.Proofs.MethodId

/-!
# The order of identifiers

The comparison that simple types have is not strict: a simple type is below itself. Identifiers are
compared at the first place where they differ, though, and types that differ have different
descriptors. So for simple types and arrays of them, which are all comparable, an identifier is
below another exactly if its key is: the class, the name, the descriptors of the parameters and that
of the result, in lexicographic order.
-/

namespace Assay

namespace Ty

/-- The type is a simple type, or an array of such to any depth. -/
def isPrimitive (t : Ty) : Bool := t.innermost.isSimple

theorem isPlain_of_isPrimitive {t : Ty} (h : t.isPrimitive = true) : t.isPlain = true := by
  induction t with
  | array t ih => exact ih h
  | object c => exact h
  | _ => rfl

theorem encode_injective {a b : Ty} (ha : a.isPlain = true) (hb : b.isPlain = true)
    (h : a.encode = b.encode) : a = b := by
  have hread := decodeFrom_encode ha "" []
  rw [h, decodeFrom_encode hb "" []] at hread
  exact (congrArg Prod.fst (Except.ok.inj hread)).symm

theorem encode_ne {a b : Ty} (ha : a.isPrimitive = true) (hb : b.isPrimitive = true) (hne : a ≠ b) :
    a.encode ≠ b.encode := fun h =>
  hne (encode_injective (isPlain_of_isPrimitive ha) (isPlain_of_isPrimitive hb) h)

/-- A simple type is compared with anything by descriptors. -/
theorem rel?_of_isSimple {a : Ty} (h : a.isSimple = true) (r : Rel) (b : Ty) :
    rel? r a b = some (simpleRel r a.encode b.encode) := by
  cases a with
  | reference => exact Bool.noConfusion h
  | object c => exact Bool.noConfusion h
  | array t => exact Bool.noConfusion h
  | _ => cases b <;> rfl

theorem rel?_array_of_isSimple {b : Ty} (h : b.isSimple = true) (r : Rel) (a : Ty) :
    rel? r (array a) b = some (simpleRel r.flip b.encode (array a).encode) := by
  cases b with
  | reference => exact Bool.noConfusion h
  | object c => exact Bool.noConfusion h
  | array t => exact Bool.noConfusion h
  | _ => rfl

/-- A simple type is below all types whose descriptor is not smaller, itself among them. -/
theorem rel_lt_of_isSimple {a : Ty} (h : a.isSimple = true) (b : Ty) :
    rel .lt a b = .ok (decide (a.encode ≤ b.encode)) := by
  rw [rel, rel?_of_isSimple h]
  simp only [simpleRel, ← decide_not, not_lt]

theorem encode_array_lt {a b : Ty} : (array a).encode < (array b).encode ↔ a.encode < b.encode := by
  rw [String.lt_iff_toList_lt, String.lt_iff_toList_lt]
  simp [encode]

/-- Types that differ are compared as their descriptors are. -/
theorem rel?_lt {a b : Ty} (ha : a.isPrimitive = true) (hb : b.isPrimitive = true) (hne : a ≠ b) :
    rel? .lt a b = some (decide (a.encode < b.encode)) := by
  induction a generalizing b with
  | array a ih =>
    cases b with
    | array b =>
      have hcontents : a ≠ b := fun h => hne (h ▸ rfl)
      have hread : rel? .lt a b = _ := ih ha hb hcontents
      rw [rel?, if_neg hcontents, hread]
      simp only [encode_array_lt]
    | reference => exact Bool.noConfusion hb
    | object c => exact Bool.noConfusion hb
    | _ =>
      rw [rel?_array_of_isSimple rfl]
      rfl
  | reference => exact Bool.noConfusion ha
  | object c => exact Bool.noConfusion ha
  | _ =>
    rw [rel?_of_isSimple rfl]
    simp only [simpleRel, ← decide_not, not_lt, (encode_ne ha hb hne).le_iff_lt]

theorem relAll_lt {as bs : List Ty} (ha : ∀ t ∈ as, t.isPrimitive = true)
    (hb : ∀ t ∈ bs, t.isPrimitive = true) (hne : as ≠ bs) :
    relAll .lt as bs = .ok (decide (as.map encode < bs.map encode)) := by
  induction as generalizing bs with
  | nil =>
    cases bs with
    | nil => exact absurd rfl hne
    | cons b bs => simp [relAll, Rel.onInt]
  | cons a as ih =>
    cases bs with
    | nil => simp [relAll, Rel.onInt]
    | cons b bs =>
      obtain ⟨ha₁, has⟩ := List.forall_mem_cons.1 ha
      obtain ⟨hb₁, hbs⟩ := List.forall_mem_cons.1 hb
      by_cases hab : a = b
      · subst hab
        rw [relAll, if_pos rfl, ih has hbs fun h => hne (h ▸ rfl)]
        simp
      · rw [relAll, if_neg hab, rel, rel?_lt ha₁ hb₁ hab]
        simp [List.cons_lt_cons_iff, encode_ne ha₁ hb₁ hab]

theorem relReturn_lt {a b : Option Ty} (ha : ∀ t ∈ a, t.isPrimitive = true)
    (hb : ∀ t ∈ b, t.isPrimitive = true) (hvoid : a = none ↔ b = none) :
    relReturn .lt a b = .ok (decide (Signature.returnText a < Signature.returnText b)) := by
  cases a with
  | none =>
    obtain rfl := hvoid.1 rfl
    simp [relReturn, Rel.onEqual]
  | some a =>
    cases b with
    | none => simp at hvoid
    | some b =>
      by_cases hab : a = b
      · subst hab
        simp [relReturn, Rel.onEqual]
      · rw [relReturn, if_neg hab, rel, rel?_lt (ha a rfl) (hb b rfl) hab]
        rfl

end Ty

namespace MethodId

/-- The parameters and the result are simple types or arrays of them. -/
structure IsPrimitive (m : MethodId) : Prop where
  params : ∀ t ∈ m.signature.params, t.isPrimitive = true
  ret : ∀ t ∈ m.signature.ret, t.isPrimitive = true

/-- Methods of one class, name and parameters both return a value, or both do not. -/
def AgreeOnVoid (a b : MethodId) : Prop :=
  a.owner = b.owner → a.signature.name = b.signature.name →
  a.signature.params = b.signature.params →
    (a.signature.ret = none ↔ b.signature.ret = none)

/-- What identifiers are compared by. -/
def sortKey (m : MethodId) : String ×ₗ String ×ₗ List String ×ₗ String :=
  toLex (m.owner.text, toLex (m.signature.name,
    toLex (m.signature.params.map Ty.encode, Signature.returnText m.signature.ret)))

variable {a b : MethodId}

theorem params_injective (ha : a.IsPrimitive) (hb : b.IsPrimitive)
    (h : a.signature.params.map Ty.encode = b.signature.params.map Ty.encode) :
    a.signature.params = b.signature.params := by
  have hplain : ∀ {m : MethodId}, m.IsPrimitive → ∀ t ∈ m.signature.params, t.isPlain = true :=
    fun hm t ht => Ty.isPlain_of_isPrimitive (hm.params t ht)
  have hread := Ty.decodeAll_encodeAll (hplain ha)
  rw [Ty.encodeAll, h, ← Ty.encodeAll, Ty.decodeAll_encodeAll (hplain hb)] at hread
  exact (Except.ok.inj hread).symm

theorem ret_injective (ha : a.IsPrimitive) (hb : b.IsPrimitive)
    (h : Signature.returnText a.signature.ret = Signature.returnText b.signature.ret) :
    a.signature.ret = b.signature.ret := by
  have hplain : ∀ {m : MethodId}, m.IsPrimitive → ∀ t ∈ m.signature.ret, t.isPlain = true :=
    fun hm t ht => Ty.isPlain_of_isPrimitive (hm.ret t ht)
  have hread := Signature.decodeReturn_returnText (hplain ha)
  rw [h, Signature.decodeReturn_returnText (hplain hb)] at hread
  exact (Except.ok.inj hread).symm

/-- Identifiers with one key are the same. -/
theorem sortKey_injective (ha : a.IsPrimitive) (hb : b.IsPrimitive)
    (h : a.sortKey = b.sortKey) : a = b := by
  obtain ⟨⟨c⟩, n, ps, r⟩ := a
  obtain ⟨⟨c'⟩, n', ps', r'⟩ := b
  simp only [sortKey, toLex_inj, Prod.mk.injEq] at h
  obtain ⟨rfl, rfl, hparams, hret⟩ := h
  obtain rfl := params_injective ha hb hparams
  obtain rfl := ret_injective ha hb hret
  rfl

/-- An identifier is below another if its key is. -/
theorem rel_lt (ha : a.IsPrimitive) (hb : b.IsPrimitive) (hvoid : AgreeOnVoid a b) :
    rel .lt a b = .ok (decide (a.sortKey < b.sortKey)) := by
  simp only [sortKey, Prod.Lex.toLex_lt_toLex]
  by_cases howner : a.owner = b.owner
  · by_cases hname : a.signature.name = b.signature.name
    · by_cases hparams : a.signature.params = b.signature.params
      · rw [rel, if_neg (not_not.2 howner), Signature.rel, if_neg (not_not.2 hname),
          if_neg (not_not.2 hparams), Ty.relReturn_lt ha.ret hb.ret (hvoid howner hname hparams)]
        simp [howner, hname, hparams]
      · have hkey : a.signature.params.map Ty.encode ≠ b.signature.params.map Ty.encode :=
          fun h => hparams (params_injective ha hb h)
        rw [rel, if_neg (not_not.2 howner), Signature.rel, if_neg (not_not.2 hname), if_pos hparams,
          Ty.relAll_lt ha.params hb.params hparams]
        simp [howner, hname, hkey]
    · rw [rel, if_neg (not_not.2 howner), Signature.rel, if_pos hname]
      simp [howner, hname, Rel.onText]
  · have hkey : a.owner.text ≠ b.owner.text := fun h => howner (by
      cases ha' : a.owner
      cases hb' : b.owner
      simp_all)
    rw [rel, if_pos howner]
    simp [hkey, Rel.onText]

end MethodId

end Assay
