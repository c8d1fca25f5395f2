import Assay.Baseline.Guess
import Assay.Baseline.Machine

/-!
# Programs by name

The baseline analyses and the machine can be called by name, as other programs are.
-/

namespace Assay.Baseline

/-- The program of a name. -/
def named? (f : Files) : String → Option (List String → Console Unit)
  | "constant" => some constant
  | "prior" => some (prior f)
  | "knowing" => some (knowing f)
  | "instructions" => some (instructions f)
  | "source" => some (source f)
  | "machine" => some (machine f.library)
  | "explorer" => some (explorer f.library)
  | _ => none

/-- The text that lines make. -/
def unlines (lines : List String) : String := String.join (lines.map (· ++ "\n"))

/-- The reply of the program that a command names. -/
def reply (f : Files) (_ : Nat) : List String → Reply
  | name :: args =>
    match named? f name with
    | none => .failed
    | some p =>
      let (ending, d) := (p args).start .empty
      match ending with
      | .ok () => .done (unlines d.printed) [] 0
      | .error (.exit 0) => .done (unlines d.printed) [] 0
      | .error _ => .failed
  | [] => .failed

end Assay.Baseline
