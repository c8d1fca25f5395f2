import Assay.Json.Basic

/-!
# Looking into documents

Entries of an object by key, where a missing entry counts as empty or has a default.
-/

namespace Assay.Json

def asText : Json → String
  | str s => s
  | _ => ""

def asInt : Json → Int
  | int n => n
  | bool b => if b then 1 else 0
  | _ => 0

def asNat (j : Json) : Nat := j.asInt.toNat

def asList : Json → List Json
  | arr xs => xs
  | _ => []

def asEntries : Json → List (String × Json)
  | obj es => es
  | _ => []

/-- The entry under a key, or null. -/
def part (j : Json) (key : String) : Json := (j.get? key).getD null

def textAt (j : Json) (key : String) : String := (j.part key).asText

def listAt (j : Json) (key : String) : List Json := (j.part key).asList

def textsAt (j : Json) (key : String) : List String := (j.listAt key).map asText

def entriesAt (j : Json) (key : String) : List (String × Json) := (j.part key).asEntries

/-- The member of a list, or null. -/
def nth (j : Json) (i : Nat) : Json := j.asList.getD i null

/-- Whether an entry counts as true; a missing one or null has a default. -/
def flagAt (j : Json) (key : String) (default : Bool) : Bool :=
  match j.part key with
  | null => default
  | j => j.truthy

def intAt (j : Json) (key : String) (default : Int) : Int :=
  match j.part key with
  | null => default
  | j => j.asInt

def natAt (j : Json) (key : String) (default : Nat) : Nat := (j.intAt key default).toNat

/-- A text, or nothing. -/
def text? : Json → Option String
  | str s => some s
  | _ => none

mutual

/-- Keys in order of code points, at every level. -/
def sortKeys : Json → Json
  | arr xs => arr (sortEach xs)
  | obj es => obj ((sortEntries es).mergeSort fun a b => !(b.1 < a.1))
  | j => j

def sortEach : List Json → List Json
  | [] => []
  | j :: js => sortKeys j :: sortEach js

def sortEntries : List (String × Json) → List (String × Json)
  | [] => []
  | (k, j) :: es => (k, sortKeys j) :: sortEntries es

end

end Assay.Json
