import Assay.Catalog.Basic
import Assay.Decimal.Written
import Assay.Text.Blank
import Assay.Text.Lines

/-!
# Annotated sources

Copies of the source files, in which each assertion's line ends with its label, a first line tells
how many assertions a method has on average, and suggested assertions stand after the opening
brace of their method.
-/

namespace Assay.Annotate

/-- The line without the line feeds at its end. -/
def withoutFeed (line : String) : String :=
  String.ofList (Text.dropEnd (· = '\n') line.toList)

/-- The line with a comment, if it does not have it yet. -/
def commented (label line : String) : String :=
  let body := withoutFeed line
  let comment := " // " ++ label
  if Text.hasWord comment body then line else body ++ comment ++ "\n"

/-- Adds a comment to the line at a row; rows outside of the text are passed over. -/
def commentAt (lines : List String) (row : Int) (label : String) : List String :=
  if row < 0 then lines else lines.modify row.toNat (commented label)

/-- Rows and labels of the assertions of a class, last row first. -/
def marks (k : Class) : List (Int × String) :=
  let all := k.methods.flatMap fun m => m.assertions.map fun a => (a.row, a.label)
  all.mergeSort fun a b => b.1 ≤ a.1

/-- The text with a comment for each assertion. -/
def addComments (k : Class) (text : String) : String :=
  String.join ((marks k).foldl (fun ls a => commentAt ls a.1 a.2) (Text.keptLines text))

/-- The first line: how many assertions a method has on average. -/
def header (average : Float) : String :=
  let number := Decimal.fixed average 2
  if 2 ≤ average then
    s!"// The file has on average {number} assertions per method. This is sufficient.\n"
  else
    s!"// Warning! The file has on average {number} assertions per method. " ++
      "This is not sufficient.\n"

/-- How many lines of a method are searched for its opening brace. -/
def searchedLines : Nat := 20

/-- The line at an index, which counts from the end if it is negative. -/
def lineAt (lines : List String) (i : Int) : Except Fault String :=
  let j := if i < 0 then i + lines.length else i
  if j < 0 then .error (.outOfRange "list index out of range")
  else
    match lines[j.toNat]? with
    | some l => .ok l
    | none => .error (.outOfRange "list index out of range")

/-- The first line with an opening brace, from a row on; lines of annotations are passed over. -/
def braceFrom (lines : List String) : Nat → Int → Except Fault (Option Int)
  | 0, _ => .ok none
  | n + 1, i => do
    let line := Text.trim (← lineAt lines i)
    if !line.startsWith "@" && line.toList.contains '\x7b' then return some i
    else braceFrom lines n (i + 1)

/-- The index of the line that opens the method that starts at a row. The line with index -1 does
not count. -/
def braceAt (lines : List String) (row : Int) : Except Fault (Option Int) := do
  let stop := min (row + searchedLines) lines.length
  match ← braceFrom lines (stop - row).toNat row with
  | some i => return if i = -1 then none else some i
  | none => return none

/-- The blanks with which a line begins. -/
def indentation (line : String) : String := String.ofList (line.toList.takeWhile Text.isBlank)

/-- Inserts suggestions after the opening brace of the method that starts at a row. -/
def suggestAt (lines : List String) (row : Int) (suggestions : List String) :
    Except Fault (List String) := do
  match ← braceAt lines row with
  | none => return lines
  | some i =>
    let indent := indentation (← lineAt lines i) ++ "    "
    let new := suggestions.map fun s => indent ++ s ++ " // suggested\n"
    let place := Text.place lines.length (i + 1)
    return lines.take place ++ new ++ lines.drop place

/-- Rows and suggestions of the methods of a class that have any, last row first. -/
def suggestions (k : Class) : List (Int × List String) :=
  let all := k.methods.map fun m => (m.node.row, m.suggested.map Text.trim)
  (all.filter fun s => !s.2.isEmpty).mergeSort fun a b => b.1 ≤ a.1

/-- The text with the suggestions. -/
def addSuggestions (k : Class) (text : String) : Except Fault String := do
  return String.join
    (← (suggestions k).foldlM (fun ls s => suggestAt ls s.1 s.2) (Text.keptLines text))

/-- The files of the output folder, by name. -/
abbrev Files := List (String × String)

def fileName (k : Class) : String := k.name ++ ".java"

/-- Copies source files into one folder, where names may only occur once. -/
def copyFiles (sources : List (String × String)) : Files :=
  (sources.filter fun f => f.1.endsWith ".java").foldl (fun files f =>
    Fuzz.insertAt ((Text.split '/' f.1).getLast?.getD "") (Text.fromFile f.2) files) []

def badAverage : Fault :=
  .wrongShape "'>=' not supported between instances of 'NoneType' and 'int'"

/-- Comments and first line of the file of a class. -/
def addCommentsToFile (k : Class) (files : Files) : Files × Except Fault Unit :=
  let name := fileName k
  let commentedFile := (files.lookup name).map (addComments k)
  let files := match commentedFile with
    | some t => Fuzz.insertAt name t files
    | none => files
  match k.average with
  | none => (files, .error badAverage)
  | some x =>
    match files.lookup name with
    | some t => (Fuzz.insertAt name (header x ++ t) files, .ok ())
    | none => (files, .ok ())

/-- Suggestions in the file of a class. -/
def addSuggestionsToFile (k : Class) (files : Files) : Files × Except Fault Unit :=
  match files.lookup (fileName k) with
  | none => (files, .ok ())
  | some t =>
    match addSuggestions k t with
    | .ok t => (Fuzz.insertAt (fileName k) t files, .ok ())
    | .error f => (files, .error f)

/-- Does something to the file of each class, until it fails. -/
def eachClass (step : Class → Files → Files × Except Fault Unit) :
    Catalog → Files → Files × Except Fault Unit
  | [], files => (files, .ok ())
  | k :: ks, files =>
    match step k files with
    | (files, .ok ()) => eachClass step ks files
    | (files, .error f) => (files, .error f)

/-- Comments, first line and suggestions for the file of a class. -/
def annotateFile (k : Class) (files : Files) : Files × Except Fault Unit :=
  match addCommentsToFile k files with
  | (files, .ok ()) => addSuggestionsToFile k files
  | (files, .error f) => (files, .error f)

/-- The name of a file without its ending. -/
def stem (name : String) : String :=
  match Text.cutAtLast? '.' name.toList with
  | some (p, e) => if p.isEmpty || e.isEmpty then name else String.ofList p
  | none => name

/-- Every file belongs to a class of the catalog, and every class has a file. -/
def isComplete (c : Catalog) (files : Files) : Bool :=
  let classes := c.map Class.name
  let stems := files.map fun f => stem f.1
  classes.all stems.contains && stems.all classes.contains

/-- Annotated copies of the source files for a catalog that is about just these files. -/
def run (c : Catalog) (sources : List (String × String)) : Files × Except Fault Unit :=
  let files := copyFiles sources
  if isComplete c files then eachClass annotateFile c files
  else (files, .error (.violated "mapping is not valid"))

/-- What the program that annotates says of itself when it is run alone. -/
def greeting (path : String) : String := s!"the file {path} is run\n"

end Assay.Annotate
