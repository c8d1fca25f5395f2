import Assay.Json.Basic

/-!
# Kinds of analyses

The kind of an analysis, seen from the technologies it names.
-/

namespace Assay.Stats

inductive Kind where
  | static | dynamic | syntactic | hybrid | cheater | adhoc
  deriving DecidableEq

namespace Kind

def name : Kind → String
  | static => "static"
  | dynamic => "dynamic"
  | syntactic => "syntactic"
  | hybrid => "hybrid"
  | cheater => "cheater"
  | adhoc => "adhoc"

/-- The kind for what is among the technologies. Cheating shows, then both ways of running, then
syntax. -/
def ofFlags (isSyntactic isStatic isDynamic isCheater : Bool) : Kind :=
  if isCheater then cheater
  else if isStatic && isDynamic then hybrid
  else if isSyntactic then syntactic
  else if isDynamic then dynamic
  else if isStatic then static
  else adhoc

/-- The kind of an analysis with these technologies: a list, or a text that mentions them. -/
def ofTechnologies (j : Json) : Except Fault Kind := do
  let isSyntactic ← j.mentions "syntactic"
  let isStatic ← j.mentions "static"
  let isDynamic ← j.mentions "dynamic"
  return ofFlags isSyntactic isStatic isDynamic (← j.mentions "cheater")

end Kind

end Assay.Stats
