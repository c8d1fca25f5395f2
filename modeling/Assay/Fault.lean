/-!
# Faults

A computation that cannot answer ends in a fault: its kind says what went wrong, its message is
the text shown to the user.
-/

namespace Assay

namespace Fault

/-- What went wrong. -/
inductive Kind where
  /-- A text or value does not have the required form. -/
  | malformed
  /-- A text is not a JSON document. -/
  | malformedJson
  /-- A form that is recognised but not handled. -/
  | unsupported
  /-- An expectation that the data should meet is not met. -/
  | violated
  /-- The machine reached a state it cannot explain. -/
  | failed
  /-- A record lacks a key. -/
  | missingKey
  /-- A value of the wrong shape stands where another was needed. -/
  | wrongShape
  /-- A value has no such member. -/
  | noMember
  /-- A position lies outside a sequence. -/
  | outOfRange
  | divisionByZero
  /-- A name that nothing defines. -/
  | unbound
  /-- A result that no step has produced yet. -/
  | unset
  | noFile
  /-- A condition that is not an expression. -/
  | badSyntax
  /-- A term that the constraint solver does not accept. -/
  | badTerm
  /-- A command ended with a failure code. -/
  | commandFailed
  | timedOut
  /-- Bytes that are not text. -/
  | badEncoding
  /-- A number too large for its format. -/
  | overflow
  /-- A text that is not a pattern. -/
  | badPattern
  deriving DecidableEq

end Fault

structure Fault where
  kind : Fault.Kind
  message : String
  deriving DecidableEq

namespace Fault

def malformed (message : String) : Fault := ⟨.malformed, message⟩

def unsupported (message : String) : Fault := ⟨.unsupported, message⟩

def violated (message : String) : Fault := ⟨.violated, message⟩

def failed (message : String) : Fault := ⟨.failed, message⟩

def wrongShape (message : String) : Fault := ⟨.wrongShape, message⟩

def noMember (message : String) : Fault := ⟨.noMember, message⟩

def outOfRange (message : String) : Fault := ⟨.outOfRange, message⟩

/-- A loop that would never end. -/
def endless : Fault := ⟨.failed, "does not end"⟩

end Fault

/-- The value of a successful computation, or `d`. -/
def valueOr {α : Type} (d : α) : Except Fault α → α
  | .ok a => a
  | .error _ => d

end Assay
