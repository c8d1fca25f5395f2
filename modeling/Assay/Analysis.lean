import Assay.Annotate
import Assay.Classify.Run
import Assay.Log
import Assay.Suite.Methods

/-!
# The whole analysis

Method identifiers are looked up, assertions classified, methods fuzzed, and the sources annotated.
A method that cannot be fuzzed is logged and passed over.
-/

namespace Assay.Analysis

structure State where
  source : Fuzz.Source
  log : List Message
  printed : List String

abbrev Work (α : Type) := StateM State α

def say (level : Level) (text : String) : Work Unit :=
  modify fun s => { s with log := s.log ++ [⟨level, text⟩] }

def print (lines : List String) : Work Unit :=
  modify fun s => { s with printed := s.printed ++ lines }

/-- The text of a crash. -/
def suspectText (s : Fuzz.Suspect) : String :=
  let flag (b : Bool) : String := Datum.boolText b
  s!"WrongInput(value={s.value.full}, faulty={flag s.faulty}, is_obj={flag s.isObject})"

def crashesText (crashes : List (List Fuzz.Suspect)) : String :=
  let one (ss : List Fuzz.Suspect) : String := "[" ++ ", ".intercalate (ss.map suspectText) ++ "]"
  "[" ++ ", ".intercalate (crashes.map one) ++ "]"

/-- Methods with arrays or capped numbers among their parameters are not fuzzed. -/
def isFuzzed (params : String) : Bool :=
  !(Text.hasWord "CappedInteger" params || params.toList.contains '[')

/-- Adds crashes to a method until one does not fit. -/
def addCrashes (m : Method) : List (List Fuzz.Suspect) → Method × Except Fault Unit
  | [] => (m, .ok ())
  | ss :: rest =>
    match m.addWrong ss with
    | (m, .ok ()) => addCrashes m rest
    | (m, .error f) => (m, .error f)

/-- How methods are fuzzed: a machine for each, a corpus for each if that is wanted, and the number
of rounds. -/
structure FuzzSetting where
  run : String → Fuzz.Runner
  corpus : Option (String → Except Fault (List (List Datum)))
  rounds : Nat

/-- Fuzzes a method; what it printed stays printed if that fails. -/
def fuzzCrashes (g : FuzzSetting) (id : String) :
    Work (Except Fault (List (List Fuzz.Suspect))) := do
  let s ← get
  let (lines, r) := Fuzz.build id none (g.corpus.map fun f => f id) g.rounds s.source
  match r with
  | .error f =>
    print lines
    return .error f
  | .ok fuzzer =>
    let (r, fuzzer) := (Fuzz.fuzz (g.run id) 1 1 true).run.run fuzzer
    set { s with source := fuzzer.source, printed := s.printed ++ fuzzer.printed }
    return r.map fun _ => fuzzer.crashes

/-- A method with the crashes that fuzzing finds. -/
def fuzzIdentified (g : FuzzSetting) (m : Method) (id : String) :
    Work (Method × Except Fault Unit) := do
  match Parameter.inside id with
  | .error f => return (m, .error f)
  | .ok params =>
    if isFuzzed (String.ofList params) then
      match ← fuzzCrashes g id with
      | .error f => return (m, .error f)
      | .ok crashes =>
        print [crashesText crashes]
        return addCrashes m crashes
    else return (m, .ok ())

def fuzzMethod (g : FuzzSetting) (m : Method) : Work Method := do
  if m.params.isEmpty then return m
  else
    match m.id with
    | none =>
      say .warning s!"Method {m.name} has no method_id. Skipping fuzzer."
      return m
    | some id =>
      match ← fuzzIdentified g m id with
      | (m, .ok ()) => return m
      | (m, .error f) =>
        say .error s!"Fuzzer failed for {m.name}: {f.message}"
        return m

def fuzzMethods (g : FuzzSetting) : List Method → Work (List Method)
  | [] => return []
  | m :: ms => do
    let m ← fuzzMethod g m
    return m :: (← fuzzMethods g ms)

/-- Fuzzes every method of a catalog that has parameters. -/
def fuzzAll (g : FuzzSetting) : Catalog → Work Catalog
  | [] => return []
  | k :: ks => do
    let ms ← fuzzMethods g k.methods
    return { k with methods := ms } :: (← fuzzAll g ks)

/-- What an analysis leaves behind. -/
structure Result where
  catalog : Catalog
  files : Annotate.Files
  ending : Except Fault Unit

/-- The whole analysis of a catalog. -/
def run (root list : String) (syntactic : Bool) (classify : Classify.Setting) (g : FuzzSetting)
    (sources : List (String × String)) (c : Catalog) : Work Result := do
  let c ← if syntactic then do
      let (c, warnings) := Suite.resolveIds root list c
      warnings.forM fun w => say .warning w
      pure c
    else pure c
  let (c, r) ← if classify.solver || classify.dynamic then do
      let s ← get
      let (r, source) := (Classify.run classify c).run s.source
      set { s with source := source }
      pure r
    else pure (c, .ok ())
  match r with
  | .error f => return ⟨c, [], .error f⟩
  | .ok () =>
    let c ← fuzzAll g c
    let (files, r) := Annotate.run c sources
    return ⟨c, files, r⟩

end Assay.Analysis
