import Assay.Text.Blank
import Assay.Text.Cut
import Assay.Text.Word

/-!
# Reading branches

A line `Branch: [conditions], Status: word` names the conditions of a path and whether it can be
taken. Other text may stand around it.
-/

namespace Assay.Corpus

/-- The conditions of a branch and its status. -/
structure BranchLine where
  conditions : List String
  status : String
  deriving DecidableEq, Inhabited

def skipBlanks (cs : List Char) : List Char := cs.dropWhile Text.isBlank

/-- The status after the conditions. -/
def status? (cs : List Char) : Option (List Char) := do
  let cs ← Text.after? "],".toList cs
  let cs ← Text.after? "Status:".toList (skipBlanks cs)
  let word := (skipBlanks cs).takeWhile Text.isWord
  guard (word ≠ [])
  return word

/-- The conditions up to the first place where the status follows. They stand on one line. -/
def upToStatus? : List Char → Option (List Char × List Char)
  | [] => none
  | c :: cs =>
    match status? (c :: cs) with
    | some word => some ([], word)
    | none => if c = '\n' then none else (upToStatus? cs).map fun r => (c :: r.1, r.2)

/-- The branch that begins at the front of the text. -/
def branchHere? (cs : List Char) : Option (List Char × List Char) := do
  let cs ← Text.after? "Branch:".toList cs
  match skipBlanks cs with
  | '[' :: cs => upToStatus? cs
  | _ => none

/-- The first branch in the text. -/
def branchIn? : List Char → Option (List Char × List Char)
  | [] => none
  | c :: cs =>
    match branchHere? (c :: cs) with
    | some r => some r
    | none => branchIn? cs

/-- Conditions with commas between them. -/
def splitConditions (cs : List Char) : List String :=
  if cs.all Text.isBlank then []
  else (Text.cutAt ',' cs).map fun c => Text.trim (String.ofList c)

/-- The branches in some lines. -/
def parseBranches (lines : List String) : List BranchLine :=
  lines.filterMap fun l =>
    (branchIn? l.toList).map fun (conds, word) => ⟨splitConditions conds, String.ofList word⟩

/-- The names in a condition, in order of appearance. -/
def namesIn : List Char → Nat → List String
  | [], _ => []
  | _ :: cs, skip + 1 => namesIn cs skip
  | c :: cs, 0 =>
    if Text.isWordStart c then
      let word := (c :: cs).takeWhile Text.isWord
      String.ofList word :: namesIn cs (word.length - 1)
    else namesIn cs 0

/-- The names in conditions, sorted. -/
def mentioned (conditions : List String) : List String :=
  ((conditions.flatMap fun c => namesIn c.toList 0).eraseDups).mergeSort fun a b => !(b < a)

end Assay.Corpus
