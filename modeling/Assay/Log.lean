import Assay.Fault

/-!
# Messages

Messages to the user have a level. How verbose a program was asked to be decides from which level
on they are shown.
-/

namespace Assay

inductive Level where
  | trace | debug | info | success | warning | error
  deriving DecidableEq

namespace Level

/-- All levels, the least first. -/
def all : List Level := [trace, debug, info, success, warning, error]

def rank : Level → Nat
  | trace => 5
  | debug => 10
  | info => 20
  | success => 25
  | warning => 30
  | error => 40

def name : Level → String
  | trace => "TRACE"
  | debug => "DEBUG"
  | info => "INFO"
  | success => "SUCCESS"
  | warning => "WARNING"
  | error => "ERROR"

def ofName? (s : String) : Option Level := all.find? fun l => l.name = s

/-- The name in small letters. -/
def word (l : Level) : String := l.name.toLower

/-- The least level shown at each verbosity. -/
def thresholds : List Level := [success, info, debug, trace]

/-- The least level shown at a verbosity; a negative one counts from the end. -/
def threshold (verbosity : Int) : Except Fault Level :=
  let i := if verbosity < 0 then verbosity + thresholds.length else verbosity
  match if i < 0 then none else thresholds[i.toNat]? with
  | some l => .ok l
  | none => .error (.outOfRange "list index out of range")

def shownFrom (least l : Level) : Bool := least.rank ≤ l.rank

end Level

structure Message where
  level : Level
  text : String

namespace Message

/-- The process that messages come from when no other is named. -/
def mainProcess : String := "main"

/-- The line of a message, after the name of the process in a column of eight. -/
def line (m : Message) : String :=
  mainProcess ++ "".pushn ' ' (8 - mainProcess.length) ++ ": " ++ m.text

/-- The lines of the messages from a level on. -/
def lines (least : Level) (log : List Message) : List String :=
  (log.filter fun m => Level.shownFrom least m.level).map line

/-- The line of a message that names its level. -/
def labelled (m : Message) : String := "[" ++ m.level.name ++ "] " ++ m.text

/-- The labelled lines of the messages that are not traces. -/
def labelledLines (log : List Message) : List String :=
  (log.filter fun m => Level.shownFrom .debug m.level).map labelled

end Message

end Assay
