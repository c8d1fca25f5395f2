/-!
# Cutting texts

Searching a text for a character or a word, and cutting it there.
-/

namespace Assay.Text

/-- The pieces between the occurrences of `sep`: one more than there are occurrences. -/
def cutAt (sep : Char) : List Char → List (List Char)
  | [] => [[]]
  | c :: cs =>
    if c = sep then [] :: cutAt sep cs
    else
      match cutAt sep cs with
      | [] => [[c]]
      | p :: ps => (c :: p) :: ps

/-- The pieces of a text between the occurrences of `sep`. -/
def split (sep : Char) (s : String) : List String :=
  (cutAt sep s.toList).map String.ofList

/-- What follows the word `w` at the front of the text. -/
def after? : List Char → List Char → Option (List Char)
  | [], cs => some cs
  | _ :: _, [] => none
  | w :: ws, c :: cs => if w = c then after? ws cs else none

/-- The text before the first occurrence of the word `w`, and the text after it. -/
def cutAtWord? (w : List Char) : List Char → Option (List Char × List Char)
  | [] => (after? w []).map fun r => ([], r)
  | c :: cs =>
    match after? w (c :: cs) with
    | some r => some ([], r)
    | none => (cutAtWord? w cs).map fun p => (c :: p.1, p.2)

/-- The text before the last occurrence of the character `x`, and the text after it. -/
def cutAtLast? (x : Char) : List Char → Option (List Char × List Char)
  | [] => none
  | c :: cs =>
    match cutAtLast? x cs with
    | some (p, r) => some (c :: p, r)
    | none => if c = x then some ([], cs) else none

/-- The text before the first occurrence of the character `x`, and the text after it. -/
def cutAtFirst? (x : Char) : List Char → Option (List Char × List Char)
  | [] => none
  | c :: cs => if c = x then some ([], cs) else (cutAtFirst? x cs).map fun p => (c :: p.1, p.2)

/-- The word `w` occurs in the text. -/
def hasWord (w s : String) : Bool :=
  (cutAtWord? w.toList s.toList).isSome

/-- The pieces between the occurrences of the non-empty word `w`, found from left to right. -/
def cutAtWords (w : List Char) : Nat → List Char → List (List Char)
  | 0, cs => [cs]
  | fuel + 1, cs =>
    match cutAtWord? w cs with
    | some (p, r) => p :: cutAtWords w fuel r
    | none => [cs]

/-- The pieces of a text between the occurrences of the non-empty word `w`. -/
def splitWord (w s : String) : List String :=
  (cutAtWords w.toList s.length s.toList).map String.ofList

/-- The text with every `old` character turned into `new`. -/
def replaceChar (old new : Char) (s : String) : String :=
  String.ofList (s.toList.map fun c => if c = old then new else c)

/-- The position of the first occurrence of the word `w`, or -1. -/
def position (w : String) (cs : List Char) : Int :=
  match cutAtWord? w.toList cs with
  | some (p, _) => p.length
  | none => -1

/-- A position, which counts from the end if it is negative, as one inside the list. -/
def place (n : Nat) (i : Int) : Nat :=
  min n (if i < 0 then i + n else i).toNat

/-- The part of a list from one position up to another. -/
def slice {α : Type} (lo hi : Int) (xs : List α) : List α :=
  let a := place xs.length lo
  let b := place xs.length hi
  (xs.take b).drop a

/-- The part of the text before its first line feed. -/
def firstLine (cs : List Char) : List Char :=
  cs.takeWhile (· ≠ '\n')

theorem cutAt_ne_nil (sep : Char) (cs : List Char) : cutAt sep cs ≠ [] := by
  cases cs with
  | nil => simp [cutAt]
  | cons c cs =>
    rw [cutAt]
    split
    · simp
    · split <;> simp

end Assay.Text
