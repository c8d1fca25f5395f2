import Assay.Case
import Assay.Console.Basic
import Assay.Text.Word
import Assay.Verdict.Info

/-!
# The arguments of an analysis

An analysis is called with the word `info`, to say what it is, or with a method, and maybe an input
of it.
-/

namespace Assay.Baseline

/-- The argument at a position. -/
def argument (args : List String) (i : Nat) : Console String :=
  match args[i]? with
  | some a => pure a
  | none => Console.fail (.outOfRange "list index out of range")

/-- Prints what an analysis is, and ends. -/
def introduce {α : Type} (i : Info) : Console α := do
  Console.print i.name
  Console.print i.version
  Console.print i.group
  Console.print (",".intercalate i.tags)
  i.system.forM Console.print
  Console.exit 0

/-- The method that the analysis is asked about. -/
def method (info : Info) (args : List String) : Console MethodId := do
  let first ← argument args 0
  if first = "info" then introduce info else Console.ofExcept (MethodId.decode first)

/-- The method and the input from an argument on. -/
def methodAndInput (args : List String) (start : Nat) : Console (MethodId × Input) := do
  let first ← argument args start
  let second ← argument args (start + 1)
  let id ← Console.ofExcept (MethodId.decode first)
  return (id, ← Console.ofExcept (Input.decode second))

/-- After `(new`: blanks, a name, and arguments in parentheses before the closing one. -/
def isObjectCall (cs : List Char) : Bool :=
  let rest := cs.dropWhile Text.isBlank
  match rest with
  | c :: _ =>
    let rest := rest.dropWhile Text.isWord
    cs.head?.any Text.isBlank &&
      (('A' ≤ c && c ≤ 'Z') || ('a' ≤ c && c ≤ 'z') || c = '_') &&
      match rest with
      | '(' :: inner => ((inner.dropWhile (· ≠ ')')).take 2 == [')', ')'])
      | _ => false
  | [] => false

/-- A single new object in parentheses stands somewhere in the text. -/
def namesObject : List Char → Bool
  | [] => false
  | c :: cs =>
    (match Text.after? ['(', 'n', 'e', 'w'] (c :: cs) with
      | some rest => isObjectCall rest
      | none => false) || namesObject cs

end Assay.Baseline
