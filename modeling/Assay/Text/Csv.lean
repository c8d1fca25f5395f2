import Assay.Text.Lines

/-!
# Tables

Texts with a record a line and commas between the fields. A field may stand between double quotes;
it can then hold commas and line breaks, and a double quote is written twice.
-/

namespace Assay.Csv

/-- Where a reader stands. -/
inductive Place where
  /-- At the start of a line. -/
  | record
  /-- After a comma. -/
  | field
  | plain
  | quoted
  /-- After a double quote inside a quoted field. -/
  | closing
  deriving DecidableEq

/-- The records of a text. The field and the record read so far are reversed. -/
def recordsFrom : Place → List Char → List String → List Char → List (List String)
  | .record, _, _, [] => []
  | _, field, record, [] => [(String.ofList field.reverse :: record).reverse]
  | place, field, record, c :: cs =>
    let saved := String.ofList field.reverse :: record
    if place = .quoted then
      if c = '"' then recordsFrom .closing field record cs
      else recordsFrom .quoted (c :: field) record cs
    else if place = .closing ∧ c = '"' then recordsFrom .quoted (c :: field) record cs
    else if c = '\n' then
      if place = .record then [] :: recordsFrom .record [] [] cs
      else saved.reverse :: recordsFrom .record [] [] cs
    else if c = ',' then recordsFrom .field [] saved cs
    else if c = '"' ∧ (place = .record ∨ place = .field) then recordsFrom .quoted field record cs
    else recordsFrom .plain (c :: field) record cs

/-- The records of a text; an empty line has no fields. -/
def records (s : String) : List (List String) :=
  recordsFrom .record [] [] (Text.unifyBreaks s.toList)

/-- The value of a column of a row. -/
inductive Cell where
  | text (s : String)
  /-- The row is too short. -/
  | missing
  /-- The fields beyond the last column. -/
  | surplus (fields : List String)

/-- A row: the values of its columns, whose names are missing only for surplus fields. -/
abbrev Row := List (Option String × Cell)

/-- Sets the value of a column; a column of that name keeps its place. -/
def Row.set (key : Option String) (v : Cell) : Row → Row
  | [] => [(key, v)]
  | (k, w) :: rest => if k = key then (k, v) :: rest else (k, w) :: Row.set key v rest

/-- The row of a record below a heading. -/
def Row.ofRecord : List String → List String → Row → Row
  | [], [], row => row
  | [], fields, row => Row.set none (.surplus fields) row
  | name :: names, [], row => ofRecord names [] (Row.set (some name) .missing row)
  | name :: names, f :: fs, row => ofRecord names fs (Row.set (some name) (.text f) row)

/-- The rows below the heading; empty lines are passed over. -/
def rows (s : String) : List Row :=
  match records s with
  | [] => []
  | heading :: rest =>
    (rest.filter fun r => !r.isEmpty).map fun r => Row.ofRecord heading r []

end Assay.Csv
