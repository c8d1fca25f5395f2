import Assay.Decimal.Quotient
import Assay.Fuzz.Run
import Assay.Syntax.Source

/-!
# Catalogs

A catalog lists classes with their methods, and for each method its assertions, how they were
classified, and the inputs on which the method was found to fail.
-/

namespace Assay

/-- A parameter or local variable. -/
structure Variable where
  name : String
  type : String
  deriving DecidableEq, Inhabited

namespace Variable

def text (v : Variable) : String := s!"parameter: {v.name}, type: {v.type}"

end Variable

structure Assertion where
  node : Node
  row : Int
  endRow : Int
  label : String
  deriving Inhabited

/-- The label of an assertion about which nothing is known. -/
def unclassified : String := "unclassified"

/-- An argument of a failing input. -/
structure WrongArgument where
  name : String
  type : String
  value : Datum
  faulty : Bool
  deriving Inhabited

structure Method where
  name : String
  id : Option String
  node : Node
  params : List Variable
  locals : List Variable
  assertions : List Assertion
  changesState : Bool
  wrong : List WrongArgument
  /-- Types of local variables by name, if they are known. -/
  localTypes : Option (List (String × String)) := none
  deriving Inhabited

namespace Method

/-- A failing input: one argument for each parameter, in order. An object is named by its `get`. -/
def addWrongFrom (m : Method) : List Variable → List Fuzz.Suspect → Method × Except Fault Unit
  | _, [] => (m, .ok ())
  | [], _ :: _ => (m, .error (.outOfRange "list index out of range"))
  | v :: vs, s :: ss =>
    let name := if s.isObject then v.name ++ ".get()" else v.name
    addWrongFrom { m with wrong := m.wrong ++ [⟨name, v.type, s.value, s.faulty⟩] } vs ss

def addWrong (m : Method) (ss : List Fuzz.Suspect) : Method × Except Fault Unit :=
  m.addWrongFrom m.params ss

/-- An assertion that excludes the failing inputs: by their faulty arguments if there are any. -/
def suggested (m : Method) : List String :=
  if m.wrong.isEmpty then []
  else
    let noFaulty := m.wrong.all fun w => !w.faulty
    let conditions := (m.wrong.filter fun w => w.faulty || noFaulty).map fun w =>
      s!"{w.name} != {w.value.text}"
    ["assert " ++ " || ".intercalate conditions ++ ";"]

end Method

structure Class where
  name : String
  source : Source
  average : Option Float
  methods : List Method
  /-- Types of fields by name, if they are known. -/
  fieldTypes : Option (List (String × String)) := none
  deriving Inhabited

namespace Class

/-- The first method of a name. -/
def method? (c : Class) (name : String) : Option Method := c.methods.find? fun m => m.name = name

/-- The class with the average number of assertions per method. -/
def withAverage (c : Class) : Class :=
  let total := (c.methods.flatMap Method.assertions).length
  let average := if c.methods.isEmpty then 0 else Decimal.ratio total c.methods.length
  { c with average := some average }

end Class

abbrev Catalog := List Class

namespace Catalog

/-- The first class of a name. -/
def class? (c : Catalog) (name : String) : Option Class := c.find? fun k => k.name = name

def averageText : Option Float → String
  | some x => Decimal.write x
  | none => "None"

/-- The lines that describe a method. -/
def methodLines (m : Method) : List String :=
  ["", s!"  Method: {m.name}", "    Change-state: " ++ Datum.boolText m.changesState] ++
  (if m.params.isEmpty then ["    Parameters: None"]
    else "    Parameters:" :: m.params.map fun p => s!"      - {p.name}: {p.type}") ++
  (if m.assertions.isEmpty then ["    Assertions: None"]
    else "    Assertions:" :: m.assertions.map fun a =>
      s!"      - {a.label} (line ({a.row}, 0))")

/-- The lines that describe a class. -/
def classLines (k : Class) : List String :=
  ["", s!"=== Class: {k.name} ===",
    "Average assertions per method: " ++ averageText k.average] ++
  (if k.methods.isEmpty then ["  (No methods)"] else []) ++ k.methods.flatMap methodLines

/-- The lines that describe a catalog. -/
def lines (c : Catalog) : List String :=
  if c.isEmpty then ["Mapping is empty"] else c.flatMap classLines

end Catalog

end Assay
