import Assay.Catalog.Basic
import Assay.Text.Blank
import Assay.Text.Digit
import Assay.Text.Lines

/-!
# Scores

How many labels of a catalog agree with the expected ones, which stand one a line as
`class,method,row,label`.
-/

namespace Assay.Score

/-- Where an assertion stands. -/
structure Site where
  owner : String
  method : String
  row : Int
  deriving DecidableEq, Inhabited

/-- The text of a site. -/
def Site.text (s : Site) : String :=
  s!"({Text.quote s.owner}, {Text.quote s.method}, {s.row})"

/-- Expected labels, in order of first appearance. -/
abbrev Truth := List (Site × String)

def badLine (n : Nat) : Fault :=
  if n < 4 then .malformed s!"not enough values to unpack (expected 4, got {n})"
  else .malformed "too many values to unpack (expected 4)"

def readLine (line : String) : Except Fault (Site × String) :=
  match Text.split ',' (Text.trim line) with
  | [k, m, row, label] => do return (⟨k, m, ← Text.readInt row⟩, label)
  | parts => .error (badLine parts.length)

/-- Reads expected labels; of several for one site the last counts. -/
def readTruth (text : String) : Except Fault Truth := do
  let entries ← (Text.lines (Text.fromFile text)).mapM readLine
  return entries.foldl (fun t e => Fuzz.insertAt e.1 e.2 t) []

/-- The sites of a catalog with their labels. -/
def sites (c : Catalog) : List (Site × String) :=
  c.flatMap fun k => k.methods.flatMap fun m =>
    m.assertions.map fun a => (⟨k.name, m.name, a.row⟩, a.label)

/-- How many labels are the expected ones. Every site has to be expected. -/
def hits (truth : Truth) : List (Site × String) → Except Fault Nat
  | [] => .ok 0
  | (s, label) :: rest =>
    match truth.lookup s with
    | none => .error ⟨.missingKey, s.text⟩
    | some expected => do
      let n ← hits truth rest
      return if label = expected then n + 1 else n

/-- The line that tells the score. -/
def performance (c : Catalog) (text : String) : Except Fault String := do
  let truth ← readTruth text
  let all := sites c
  if truth.length ≠ all.length then .error (.violated "")
  else
    let n ← hits truth all
    return s!"score is {n} / {truth.length}"

/-- The labels of a catalog, one a line, in order of rows. -/
def list (c : Catalog) : List String :=
  ((sites c).mergeSort fun a b => a.1.row ≤ b.1.row).map fun (s, label) =>
    s!"{s.method},{s.row},{label}"

end Assay.Score
