import Assay.Decimal.Written
import Assay.Json.Basic

/-!
# Views

The document that shows a value. A floating-point number is shown by its bits, so that nothing is
lost.
-/

namespace Assay

class View (α : Type) where
  view : α → Json

export View (view)

instance : View Json := ⟨id⟩

instance : View Bool := ⟨Json.bool⟩

instance : View Int := ⟨Json.int⟩

instance : View Nat := ⟨fun n => .int n⟩

instance : View String := ⟨Json.str⟩

instance : View Unit := ⟨fun _ => .null⟩

instance : View Float :=
  ⟨fun x => .str (if Decimal.isNaN x then "nan"
    else String.ofList (Text.hexDigits 16 x.toBits.toNat))⟩

instance {α : Type} [View α] : View (List α) := ⟨fun xs => .arr (xs.map view)⟩

instance {α : Type} [View α] : View (Option α) :=
  ⟨fun x => match x with
    | some a => view a
    | none => .null⟩

instance {α β : Type} [View α] [View β] : View (α × β) := ⟨fun p => .arr [view p.1, view p.2]⟩

end Assay
