import Assay.Datum

/-!
# The heap

Values under numbers. A new entry gets the number after the largest one.
-/

namespace Assay

structure Heap where
  /-- In order of insertion, each number once. -/
  entries : List (Int × Value)
  deriving Inhabited

namespace Heap

def empty : Heap := ⟨[]⟩

def get? (h : Heap) (ref : Int) : Option Value := h.entries.lookup ref

def putIn (ref : Int) (v : Value) : List (Int × Value) → List (Int × Value)
  | [] => [(ref, v)]
  | (r, w) :: es => if r = ref then (r, v) :: es else (r, w) :: putIn ref v es

/-- Sets the value under a number. -/
def put (h : Heap) (ref : Int) (v : Value) : Heap := ⟨putIn ref v h.entries⟩

/-- The number of the next entry. -/
def next (h : Heap) : Int :=
  match h.entries.map Prod.fst with
  | [] => 0
  | r :: rs => rs.foldl max r + 1

/-- Adds a value under a new number. -/
def alloc (h : Heap) (v : Value) : Int × Heap := (h.next, h.put h.next v)

mutual

/-- The datum can be looked up at all: it holds no list and no record. -/
def isKey : Datum → Bool
  | .list _ | .record _ => false
  | .tuple xs => areKeys xs
  | .value _ d => isKey d
  | _ => true

def areKeys : List Datum → Bool
  | [] => true
  | d :: ds => isKey d && areKeys ds

end

/-- The number that a datum stands for as a reference. -/
def ref? : Datum → Option Int
  | .float x =>
    let n := if x < 0 then -(Int.ofNat (-x).toUInt64.toNat) else Int.ofNat x.toUInt64.toNat
    if Float.ofInt n == x then some n else none
  | d => d.asInt?

/-- The entry that a datum refers to, if there is one. -/
def find (h : Heap) (d : Datum) : Except Fault (Option Value) :=
  if isKey d then
    match ref? d with
    | some r => .ok (h.get? r)
    | none => .ok none
  else .error (.wrongShape s!"unhashable type: '{d.shape}'")

/-- The entry that a datum must refer to, with its number. -/
def fetch (h : Heap) (d : Datum) : Except Fault (Int × Value) := do
  match ref? d, ← h.find d with
  | some r, some v => return (r, v)
  | _, _ => .error ⟨.missingKey, d.full⟩

@[simp] theorem putIn_eq (ref : Int) (v : Value) (es : List (Int × Value)) :
    (putIn ref v es).lookup ref = some v := by
  induction es with
  | nil => simp [putIn]
  | cons e es ih =>
    obtain ⟨r, w⟩ := e
    by_cases h : r = ref
    · simp [putIn, h]
    · have hb : (ref == r) = false := by simpa using fun e => h e.symm
      simp [putIn, h, List.lookup_cons, hb, ih]

theorem putIn_ne {ref other : Int} (h : other ≠ ref) (v : Value) (es : List (Int × Value)) :
    (putIn ref v es).lookup other = es.lookup other := by
  induction es with
  | nil =>
    have hb : (other == ref) = false := by simpa using h
    simp [putIn, List.lookup_cons, hb]
  | cons e es ih =>
    obtain ⟨r, w⟩ := e
    by_cases hr : r = ref
    · have hb : (other == r) = false := by simpa [hr] using h
      simp [putIn, hr, List.lookup_cons, hr ▸ hb]
    · simp only [putIn, hr, if_false, List.lookup_cons, ih]

@[simp] theorem get?_put (h : Heap) (ref : Int) (v : Value) : (h.put ref v).get? ref = some v :=
  putIn_eq ref v h.entries

theorem get?_put_of_ne {ref other : Int} (h : Heap) (v : Value) (hne : other ≠ ref) :
    (h.put ref v).get? other = h.get? other :=
  putIn_ne hne v h.entries

end Heap

end Assay
