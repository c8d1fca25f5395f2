import Assay.Text.Blank

/-!
# Queries

The queries that pick declarations from a syntax tree, as texts. Runs of blanks count as one.
-/

namespace Assay.Syntax

inductive Query where
  | classNamed (name : String)
  | methodNamed (name : String)
  | methods

/-- The words between blanks. The word read so far is reversed. -/
def wordsFrom : List Char → List Char → List String
  | [], [] => []
  | [], acc => [String.ofList acc.reverse]
  | c :: cs, acc =>
    if Text.isBlank c then
      if acc.isEmpty then wordsFrom cs [] else String.ofList acc.reverse :: wordsFrom cs []
    else wordsFrom cs (c :: acc)

def Query.text (q : Query) : String :=
  let text := match q with
    | classNamed name =>
      "(class_declaration name: ((identifier) @class-name (#eq? @class-name \"" ++ name ++
        "\"))) @class"
    | methodNamed name =>
      "(method_declaration name: ((identifier) @method-name (#eq? @method-name \"" ++ name ++
        "\"))) @method"
    | methods => "(method_declaration) @method"
  " ".intercalate (wordsFrom text.toList [])

end Assay.Syntax
