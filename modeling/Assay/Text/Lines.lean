/-!
# Lines

Ways in which a text is cut into lines: at every kind of line break, with the break dropped or
kept, at line feeds with the line feed kept, and after all breaks have been turned into line feeds.
-/

namespace Assay.Text

/-- A character that ends a line. -/
def isBreak (c : Char) : Bool :=
  let n := c.toNat
  (10 ≤ n && n ≤ 13) || (0x1c ≤ n && n ≤ 0x1e) || n == 0x85 || n == 0x2028 || n == 0x2029

/-- The lines of a text, where a carriage return and a line feed together are one break. The second
argument holds the current line, reversed; a last line that is empty is dropped. -/
def linesFrom : List Char → List Char → List (List Char)
  | [], [] => []
  | [], acc => [acc.reverse]
  | '\r' :: '\n' :: cs, acc => acc.reverse :: linesFrom cs []
  | c :: cs, acc => if isBreak c then acc.reverse :: linesFrom cs [] else linesFrom cs (c :: acc)

/-- The lines of a text, cut at every kind of line break. -/
def lines (s : String) : List String :=
  (linesFrom s.toList []).map String.ofList

/-- Lines that keep the break that ends them. -/
def keptLinesFrom : List Char → List Char → List (List Char)
  | [], [] => []
  | [], acc => [acc.reverse]
  | '\r' :: '\n' :: cs, acc => ('\n' :: '\r' :: acc).reverse :: keptLinesFrom cs []
  | c :: cs, acc =>
    if isBreak c then (c :: acc).reverse :: keptLinesFrom cs [] else keptLinesFrom cs (c :: acc)

/-- The lines of a text, cut after every kind of line break. -/
def keptLines (s : String) : List String :=
  (keptLinesFrom s.toList []).map String.ofList

/-- Lines that keep the line feed that ends them. -/
def feedLinesFrom : List Char → List Char → List (List Char)
  | [], [] => []
  | [], acc => [acc.reverse]
  | c :: cs, acc =>
    if c = '\n' then ('\n' :: acc).reverse :: feedLinesFrom cs [] else feedLinesFrom cs (c :: acc)

/-- The lines of a text, cut after each line feed. -/
def feedLines (s : String) : List String :=
  (feedLinesFrom s.toList []).map String.ofList

/-- Carriage returns, alone or before a line feed, become line feeds. -/
def unifyBreaks : List Char → List Char
  | [] => []
  | '\r' :: '\n' :: cs => '\n' :: unifyBreaks cs
  | c :: cs => (if c = '\r' then '\n' else c) :: unifyBreaks cs

/-- The text as it is read from a file: every carriage return is a line feed. -/
def fromFile (s : String) : String :=
  String.ofList (unifyBreaks s.toList)

end Assay.Text
