import Assay.Term.Operand
import Assay.Text.Word

/-!
# Expressions

The conditions of branches are written as expressions: numbers, texts, names, arithmetic,
comparisons that may be chained, and connectives. An expression is read from a text and evaluated to
an operand.
-/

namespace Assay

namespace Expression

/-- The operations that only plain numbers have. -/
inductive PlainOp where
  | floor | power | shiftLeft | shiftRight | meet | join | differ
  deriving DecidableEq, Inhabited

end Expression

inductive Expression where
  | const (d : Datum)
  | name (x : String)
  | positive (e : Expression)
  | negative (e : Expression)
  /-- Each bit is changed. -/
  | flipped (e : Expression)
  | arith (op : Term.Op) (a b : Expression)
  | plain (op : Expression.PlainOp) (a b : Expression)
  | compare (op : Term.Op) (a b : Expression)
  /-- The second operand decides if the first counts as true. -/
  | both (a b : Expression)
  /-- The second operand decides if the first does not count as true. -/
  | either (a b : Expression)
  | no (e : Expression)
  /-- The second operand, once the first has a value. -/
  | after (a b : Expression)
  /-- A member, which no operand has. -/
  | member (e : Expression)
  /-- An operation that no operand has. -/
  | misfit (e : Expression)
  deriving Inhabited

namespace Expression

inductive Tok where
  | name (s : String)
  | const (d : Datum)
  | mark (s : String)
  deriving Inhabited

/-- Words that are not names. -/
def keywords : List String :=
  ["and", "or", "not", "if", "else", "lambda", "for", "in", "is", "as", "assert", "async", "await",
    "break", "class", "continue", "def", "del", "elif", "except", "finally", "from", "global",
    "import", "nonlocal", "pass", "raise", "return", "try", "while", "with", "yield"]

def marks : List String :=
  ["==", "!=", "<=", ">=", "**", "//", "<<", ">>", "<", ">", "+", "-", "*", "/", "%", "(", ")", "~",
    "&", "|", "^", "@", ".", ",", "[", "]", "\n"]

/-- The base of a number that is not decimal, by the letter after its zero. -/
def base? (c : Char) : Option Nat :=
  if c = 'x' ∨ c = 'X' then some 16
  else if c = 'o' ∨ c = 'O' then some 8
  else if c = 'b' ∨ c = 'B' then some 2
  else none

/-- The value of a digit in a base. -/
def digitIn? (base : Nat) (c : Char) : Option Nat :=
  let n := if c.isDigit then c.toNat - 48
    else if 'a' ≤ c ∧ c ≤ 'f' then c.toNat - 87
    else if 'A' ≤ c ∧ c ≤ 'F' then c.toNat - 55 else base
  if n < base then some n else none

/-- The number with these digits in a base; a line may stand in front of each of them. -/
def based? (base : Nat) : List Char → Nat → Option Nat
  | [], n => some n
  | '_' :: c :: cs, n => do based? base cs (base * n + (← digitIn? base c))
  | c :: cs, n => do based? base cs (base * n + (← digitIn? base c))

/-- The exponent at the front of a text. -/
def exponent (cs : List Char) : List Char :=
  match cs with
  | e :: rest =>
    let sign := rest.takeWhile fun c => c = '+' || c = '-'
    let digits := (rest.drop sign.length).takeWhile fun c => c.isDigit || c = '_'
    if (e = 'e' ∨ e = 'E') ∧ sign.length ≤ 1 ∧ digits ≠ [] then e :: sign ++ digits else []
  | [] => []

/-- The decimal number at the front of a text, with its length. A whole number other than zero does
not begin with a zero, and is not too long. -/
def decimal? (cs : List Char) : Option (Datum × Nat) := do
  let body := cs.takeWhile fun c => c.isDigit || c = '_' || c = '.'
  let exp := exponent (cs.drop body.length)
  if body.contains '.' ∨ exp ≠ [] then
    return (.float (← Decimal.read? (String.ofList (body ++ exp))), body.length + exp.length)
  else
    let ds ← Text.digitsOf? false body
    guard (ds.all (· = 0) || (ds.head? ≠ some 0 && ds.length ≤ Text.maxDigits))
    return (.int (Text.numberOf ds), body.length)

/-- The number at the front of a text, with its length. No name may follow it. -/
def number? (cs : List Char) : Option (Datum × Nat) := do
  let (d, n) ← match cs with
    | '0' :: c :: rest =>
      match base? c with
      | some base => do
        let ds := rest.takeWhile Text.isWord
        guard (ds ≠ [])
        pure (.int (← based? base ds 0), ds.length + 2)
      | none => decimal? cs
    | cs => decimal? cs
  guard (!((cs.drop n).head?.any Text.isWord))
  return (d, n)

/-- The text up to the closing quote, with its length and that of the quotes. -/
def quoted? (quote : Char) (cs : List Char) : Option (Datum × Nat) :=
  let inner := cs.takeWhile fun c => c ≠ quote ∧ c ≠ '\\' ∧ c ≠ '\n'
  if (cs.drop inner.length).head? = some quote then
    some (.str (String.ofList inner), inner.length + 2)
  else none

/-- The token at the front of a text, with its length. -/
def token? (cs : List Char) : Option (Tok × Nat) :=
  match cs with
  | [] => none
  | c :: _ =>
    if c.isDigit || (c = '.' && (cs.getD 1 ' ').isDigit) then
      (number? cs).map fun (d, n) => (.const d, n)
    else if c = '\'' ∨ c = '"' then (quoted? c cs.tail).map fun (d, n) => (.const d, n)
    else if Text.isWord c && !Text.isDecimal c then
      let word := String.ofList (cs.takeWhile Text.isWord)
      let tok : Tok :=
        match word with
        | "True" => .const (.bool true)
        | "False" => .const (.bool false)
        | "None" => .const .null
        | w => if keywords.contains w then .mark w else .name w
      some (tok, word.length)
    else
      match marks.find? fun m => m.toList.isPrefixOf cs with
      | some m => some (.mark m, m.length)
      | none => none

/-- The tokens of a text; the second argument counts the characters of the last one that are still
to be passed. A remark goes to the end of its line. -/
def tokens? : List Char → Nat → Option (List Tok)
  | [], _ => some []
  | _ :: cs, skip + 1 => tokens? cs skip
  | c :: cs, 0 =>
    if c = ' ' ∨ c = '\t' ∨ c = '\x0c' then tokens? cs 0
    else if c = '#' then tokens? cs (cs.takeWhile (· ≠ '\n')).length
    else do
      let (t, n) ← token? (c :: cs)
      return t :: (← tokens? cs (n - 1))

def Tok.isBreak : Tok → Bool
  | .mark "\n" => true
  | _ => false

/-- The tokens without the line breaks inside brackets, of which `depth` are open. -/
def joined : Nat → List Tok → List Tok
  | _, [] => []
  | depth, t :: ts =>
    match t with
    | .mark "(" | .mark "[" => t :: joined (depth + 1) ts
    | .mark ")" | .mark "]" => t :: joined (depth - 1) ts
    | t => if t.isBreak ∧ 0 < depth then joined depth ts else t :: joined depth ts

/-- The tokens of an expression: line breaks around it do not count. -/
def trimmed (ts : List Tok) : List Tok :=
  ((ts.dropWhile Tok.isBreak).reverse.dropWhile Tok.isBreak).reverse

/-- The levels of binding, from the loosest on; level 2 is the negation and level 10 the sign. -/
def binaryMarks : Nat → List String
  | 0 => ["or"]
  | 1 => ["and"]
  | 3 => ["==", "!=", "<", "<=", ">", ">="]
  | 4 => ["|"]
  | 5 => ["^"]
  | 6 => ["&"]
  | 7 => ["<<", ">>"]
  | 8 => ["+", "-"]
  | 9 => ["*", "/", "%", "//", "@"]
  | _ => []

def operation? : String → Option Term.Op
  | "==" => some .eq
  | "!=" => some .ne
  | "<" => some .lt
  | "<=" => some .le
  | ">" => some .gt
  | ">=" => some .ge
  | "+" => some .add
  | "-" => some .sub
  | "*" => some .mul
  | "/" => some .div
  | "%" => some .mod
  | _ => none

def plainOperation? : String → Option PlainOp
  | "//" => some .floor
  | "**" => some .power
  | "<<" => some .shiftLeft
  | ">>" => some .shiftRight
  | "&" => some .meet
  | "|" => some .join
  | "^" => some .differ
  | _ => none

def binary (mark : String) (a b : Expression) : Expression :=
  match mark, operation? mark, plainOperation? mark with
  | "or", _, _ => either a b
  | "and", _, _ => both a b
  | _, some op, _ => if op.isLogical then compare op a b else arith op a b
  | _, _, some op => plain op a b
  | _, none, none => misfit (after a b)

/-- The highest level: names, numbers and parentheses. -/
def atomLevel : Nat := 11

mutual

/-- Reads an expression of a level. -/
def read : Nat → Nat → List Tok → Option (Expression × List Tok)
  | 0, _, _ => none
  | fuel + 1, level, ts =>
    if level ≥ atomLevel then do
      let (e, ts) ← readAtom fuel ts
      readMore fuel e ts
    else if level = 2 then
      match ts with
      | .mark "not" :: ts => do
        let (e, ts) ← read fuel 2 ts
        return (no e, ts)
      | ts => read fuel 3 ts
    else if level = 10 then
      match ts with
      | .mark "-" :: ts => do
        let (e, ts) ← read fuel 10 ts
        return (negative e, ts)
      | .mark "+" :: ts => do
        let (e, ts) ← read fuel 10 ts
        return (positive e, ts)
      | .mark "~" :: ts => do
        let (e, ts) ← read fuel 10 ts
        return (flipped e, ts)
      | ts => do
        let (e, ts) ← read fuel 11 ts
        match ts with
        | .mark "**" :: ts =>
          let (f, ts) ← read fuel 10 ts
          return (plain .power e f, ts)
        | ts => return (e, ts)
    else do
      let (e, ts) ← read fuel (level + 1) ts
      readRest fuel level false e e ts

/-- Reads the further operands of a level. In a chain of comparisons each one shares an operand with
the next; the flag tells whether there has been one. -/
def readRest : Nat → Nat → Bool → Expression → Expression → List Tok →
    Option (Expression × List Tok)
  | 0, _, _, _, _, _ => none
  | fuel + 1, level, chained, whole, last, ts =>
    match ts with
    | .mark m :: rest =>
      if (binaryMarks level).contains m then do
        let (e, ts) ← read fuel (level + 1) rest
        if level = 3 then
          let link := binary m last e
          readRest fuel level true (if chained then both whole link else link) e ts
        else readRest fuel level false (binary m whole e) e ts
      else some (whole, ts)
    | ts => some (whole, ts)

def readAtom : Nat → List Tok → Option (Expression × List Tok)
  | 0, _ => none
  | fuel + 1, ts =>
    match ts with
    | .name x :: ts => some (name x, ts)
    | .const d :: ts => some (const d, ts)
    | .mark "(" :: ts =>
      match read fuel 0 ts with
      | some (e, .mark ")" :: ts) => some (e, ts)
      | _ => none
    | _ => none

/-- Reads calls, members and elements, which no operand has. -/
def readMore : Nat → Expression → List Tok → Option (Expression × List Tok)
  | 0, _, _ => none
  | fuel + 1, e, ts =>
    match ts with
    | .mark "(" :: ts =>
      match readArguments fuel e ts with
      | some (whole, ts) => readMore fuel (misfit whole) ts
      | none => none
    | .mark "[" :: ts =>
      match read fuel 0 ts with
      | some (arg, .mark "]" :: ts) => readMore fuel (misfit (after e arg)) ts
      | _ => none
    | .mark "." :: .name _ :: ts => readMore fuel (member e) ts
    | ts => some (e, ts)

/-- Reads arguments up to a closing parenthesis; they get their values after `e`. -/
def readArguments : Nat → Expression → List Tok → Option (Expression × List Tok)
  | 0, _, _ => none
  | fuel + 1, e, ts =>
    match ts with
    | .mark ")" :: ts => some (e, ts)
    | ts =>
      match read fuel 0 ts with
      | some (arg, .mark "," :: ts) => readArguments fuel (after e arg) ts
      | some (arg, .mark ")" :: ts) => some (after e arg, ts)
      | _ => none

end

/-- Reads a text that is an expression. -/
def parse? (s : String) : Option Expression := do
  let ts := trimmed (joined 0 (← tokens? s.toList 0))
  match read (20 * ts.length + 20) 0 ts with
  | some (e, []) => some e
  | _ => none

/-- The bits of two whole numbers, joined by an operation on words that are wide enough. -/
def onBits (f : (w : Nat) → BitVec w → BitVec w → BitVec w) (m n : Int) : Int :=
  let w := max m.natAbs.log2 n.natAbs.log2 + 2
  (f w (BitVec.ofInt w m) (BitVec.ofInt w n)).toInt

/-- An operation on whole numbers. -/
def PlainOp.onInts (op : PlainOp) (m n : Int) : Except Fault Datum :=
  match op with
  | .floor => if n = 0 then .error Operand.divisionByZero else .ok (.int (m.fdiv n))
  | .power =>
    if 0 ≤ n then .ok (.int (Int.pow m n.toNat))
    else if m = 0 then .error Operand.divisionByZero
    else .ok (.float ((Float.ofInt m).pow (Float.ofInt n)))
  | .shiftLeft =>
    if n < 0 then .error (.malformed "negative shift count")
    else .ok (.int (m * Nat.pow 2 n.toNat))
  | .shiftRight =>
    if n < 0 then .error (.malformed "negative shift count")
    else .ok (.int (m.fdiv (Nat.pow 2 n.toNat)))
  | .meet => .ok (.int (onBits (fun _ a b => a &&& b) m n))
  | .join => .ok (.int (onBits (fun _ a b => a ||| b) m n))
  | .differ => .ok (.int (onBits (fun _ a b => a ^^^ b) m n))

def PlainOp.onFloats (op : PlainOp) (x y : Float) : Except Fault Datum :=
  match op with
  | .floor => if y == 0 then .error Operand.divisionByZero else .ok (.float (x / y).floor)
  | .power =>
    if x == 0 ∧ y < 0 then .error Operand.divisionByZero else .ok (.float (x.pow y))
  | _ => .error Operand.unsupported

/-- An operation on plain operands; the bits of truth values make a truth value. -/
def PlainOp.eval (op : PlainOp) (a b : Datum) : Except Fault Datum :=
  match op, a, b with
  | .meet, .bool p, .bool q => .ok (.bool (p && q))
  | .join, .bool p, .bool q => .ok (.bool (p || q))
  | .differ, .bool p, .bool q => .ok (.bool (p != q))
  | op, a, b =>
    match a.asInt?, b.asInt? with
    | some m, some n => op.onInts m n
    | _, _ =>
      match a.asFloat?, b.asFloat? with
      | some x, some y => op.onFloats x y
      | _, _ => .error Operand.unsupported

/-- A number with its sign kept; a truth value counts as one or zero. -/
def signed (d : Datum) : Except Fault Datum :=
  match d with
  | .term t => if t.kind = .bool then .error Operand.unsupported else .ok d
  | .float x => .ok (.float x)
  | d =>
    match d.asInt? with
    | some n => .ok (.int n)
    | none => .error Operand.unsupported

/-- A whole number with its bits changed. -/
def complement (d : Datum) : Except Fault Datum :=
  match d.asInt? with
  | some n => .ok (.int (-n - 1))
  | none => .error Operand.unsupported

/-- The value of an expression in which names stand for terms. -/
def eval (env : List (String × Term)) : Expression → Except Fault Datum
  | const d => .ok d
  | name x =>
    match env.lookup x with
    | some t => .ok (.term t)
    | none => .error ⟨.unbound, s!"name {Text.quote x} is not defined"⟩
  | positive e => do signed (← e.eval env)
  | negative e => do Operand.arith .sub (.int 0) (← e.eval env)
  | flipped e => do complement (← e.eval env)
  | arith op a b => do
    let x ← a.eval env
    Operand.arith op x (← b.eval env)
  | plain op a b => do
    let x ← a.eval env
    op.eval x (← b.eval env)
  | compare op a b => do
    let x ← a.eval env
    Operand.compare op x (← b.eval env)
  | both a b => do
    let x ← a.eval env
    if ← Operand.holds x then b.eval env else return x
  | either a b => do
    let x ← a.eval env
    if ← Operand.holds x then return x else b.eval env
  | no e => do return .bool (!(← Operand.holds (← e.eval env)))
  | after a b => do
    let _ ← a.eval env
    b.eval env
  | member e => do
    let _ ← e.eval env
    .error (.noMember "no such member")
  | misfit e => do
    let _ ← e.eval env
    .error Operand.unsupported

end Expression

end Assay
