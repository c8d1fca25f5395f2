import Assay.Baseline.Arguments
import Assay.Sorting
import Assay.Suite.ClassFile
import Assay.Syntax.Source
import Assay.Text.Csv

/-!
# Baseline analyses

Five analyses that do not look far: one always says the same, one knows how often each outcome
occurs, one knows the cases, one looks for assertion errors among the instructions, and one looks
for assertions in the source.
-/

namespace Assay.Baseline

def group : String := "The Rice Theorem Cookers"

/-- The files that an analysis can read. -/
structure Files where
  library : Library
  /-- Source files, by path. -/
  sources : List (String × Source)
  distribution : Option String
  cases : Option String
  /-- The system that the analysis runs on. -/
  platform : String

def missingFile {α : Type} (path : String) : Console α := Console.fail ⟨.noFile, path⟩

/-- The predictions of an analysis that always says the same. -/
def constantLines : List String :=
  ["ok;90%", "divide by zero;10%", "assertion error;5%", "out of bounds;0%", "null pointer;0%",
    "*;0%"]

/-- The first line has a point and later a colon. -/
def looksLikeMethod (s : String) : Bool :=
  match Text.cutAtFirst? '.' (Text.firstLine s.toList) with
  | some (_, rest) => rest.contains ':'
  | none => false

/-- Always says the same. -/
def constant (args : List String) : Console Unit := do
  if args = ["info"] then
    ["My First Analyzer", "1.0", "Student Group Name", "simple,python", "no"].forM Console.print
  else
    let first ← argument args 0
    if looksLikeMethod first then constantLines.forM Console.print
    else Console.fail (.noMember "'NoneType' object has no attribute 'groups'")

def cellText : Csv.Cell → String
  | .text s => s
  | .missing => "None"
  | .surplus fields => (Datum.list (fields.map Datum.str)).text

/-- Says how often each outcome occurs, by the last row of a table. -/
def prior (f : Files) (args : List String) : Console Unit := do
  let _ ← method ⟨"apriori", "1.0", group, ["cheat", "python", "stats"], some f.platform⟩ args
  match f.distribution with
  | none => missingFile "stats/distribution.csv"
  | some table =>
    match (Csv.rows table).getLast? with
    | none => Console.fail (.outOfRange "list index out of range")
    | some row =>
      (row.filter fun c => c.1 != some "method").forM fun (name, cell) =>
        Console.print (name.getD "None" ++ ";" ++ cellText cell)

/-- The method and the result in the line of a case. -/
def caseLine (line : String) : Except Fault (String × String) :=
  match Text.cutAtFirst? ' ' line.toList with
  | none => .error (.malformed "not enough values to unpack (expected 2, got 1)")
  | some (id, rest) =>
    match (Text.splitWord "->" (String.ofList rest)).reverse with
    | result :: _ :: _ => .ok (String.ofList id, Text.trim result)
    | _ => .error (.outOfRange "list index out of range")

/-- Says the results that the cases of the method have. -/
def knowing (f : Files) (args : List String) : Console Unit := do
  let id ← method ⟨"cheater", "0.1", group, ["cheat", "python"], some f.platform⟩ args
  match f.cases with
  | none => missingFile "stats/cases.txt"
  | some text =>
    let lines ← Console.ofExcept ((Text.feedLines (Text.fromFile text)).mapM caseLine)
    let known := (lines.filter fun l => l.1 = id.encode).map Prod.snd
    let queries := (lines.map Prod.snd).eraseDups.mergeSort fun a b => !(b < a)
    queries.forM fun q => Console.print (q ++ ";" ++ if known.contains q then "100%" else "0%")

/-- The instruction creates an assertion error. -/
def createsError (i : Json) : Except Fault Bool := do
  if (← i.item "opr") == .str "invoke" then
    return (← (← (← i.item "method").item "ref").item "name") == .str "java/lang/AssertionError"
  else return false

/-- One of the instructions creates an assertion error; those after it are not looked at. -/
def anyCreates : List Json → Except Fault Bool
  | [] => .ok false
  | i :: is => do if ← createsError i then return true else anyCreates is

def likely : String := "assertion error;80%"

def unlikely : String := "assertion error;20%"

/-- Looks for assertion errors among the instructions. -/
def instructions (f : Files) (args : List String) : Console Unit := do
  let id ← method ⟨"bytecoder", "1.0", group, ["syntatic", "python"], some f.platform⟩ args
  let found ← Console.ofExcept do
    let entry ← f.library.method id
    anyCreates (← (← (← entry.document.item "code").item "bytecode").elements)
  if found then Console.print likely
  else
    Console.print unlikely
    Console.exit 0

/-- The declarations of a kind with a name, in order of their first byte. -/
def declarations (kind name : String) (n : Node) : List Node :=
  (n.ofKind kind).filter fun d =>
    match d.child? "name" with
    | some i => i.kind = "identifier" && i.text = name
    | none => false

/-- The declaration has as many parameters as asked for, each with a type. -/
def fits (count : Nat) (declaration : Node) : Bool :=
  match declaration.child? "parameters" with
  | none => false
  | some ps =>
    let params := ps.children.filter fun c => c.kind = "formal_parameter"
    params.length = count && params.all fun p => (p.child? "type").isSome

/-- The pieces between line feeds and carriage returns. -/
def byteLines : List UInt8 → List (List UInt8)
  | [] => [[]]
  | b :: bs =>
    match byteLines bs with
    | [] => [[b]]
    | l :: ls => if b = 10 ∨ b = 13 then [] :: l :: ls else (b :: l) :: ls

/-- Every line of a node has to be text. -/
def checkLines (s : Source) (n : Node) : Except Fault Unit :=
  (byteLines (s.text.toUTF8.extract n.start n.stop).toList).forM fun l => do
    let _ ← Source.decode ⟨l.toArray⟩

/-- Looks for assertions in the source of the method. -/
def source (f : Files) (args : List String) : Console Unit := do
  let id ← method ⟨"syntaxer", "1.0", group, ["syntatic", "python"], some f.platform⟩ args
  let path := (Suite.sourceFile id.owner).text
  match f.sources.lookup path with
  | none => missingFile path
  | some s =>
    match (declarations "class_declaration" id.owner.name s.root).head? with
    | none => Console.fail (Json.missing "class")
    | some c =>
      match declarations "method_declaration" id.signature.name c with
      | [] => Console.fail (Json.missing "method")
      | ms =>
        match ms.find? (fits id.signature.params.length) with
        | none => Console.exit (-1)
        | some m =>
          match m.child? "body" with
          | none => Console.fail (.violated "")
          | some body =>
            if body.start = body.stop then Console.fail (.violated "")
            else
              Console.ofExcept (checkLines s body)
              Console.print (if (body.ofKind "assert_statement").isEmpty then unlikely else likely)
              Console.exit 0

end Assay.Baseline
