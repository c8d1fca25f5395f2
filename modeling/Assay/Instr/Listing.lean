import Assay.Instr.Reading

/-!
# Listing instructions

The line that shows an instruction, the real instruction it stands for, the mnemonic under which
that is documented, and what is documented about its meaning.
-/

namespace Assay

namespace Op

/-- The word for a field of a class or of an object. -/
def fieldWord (isStatic : Bool) : String := if isStatic then "static" else "field"

/-- The data that the full name of an instruction shows, its types and its offset apart. -/
def data : Op → List Datum
  | put _ f | get _ f => [.ofJson f.owner, .ofJson f.name]
  | push v => [v.content]
  | newArray _ n | dup n | store _ n | load _ n | compare _ n | compareZero _ n | goto n =>
    [.ofJson n.toJson]
  | invokeVirtual m | invokeStatic m | invokeSpecial m _ => [.ofJson m.owner, .ofJson m.name]
  | invokeInterface m n => [.ofJson m.owner, .ofJson m.name, .ofJson n.toJson]
  | new c => [.ofJson c]
  | incr n m => [.ofJson n.toJson, .ofJson m.toJson]
  | arrayStore _ | cast _ _ | arrayLoad _ | arrayLength | binary _ _ | throw | ret _ => []

/-- The line that shows an instruction; a field update has none and is shown by its full name. -/
def line? : Op → Except Fault (Option String)
  | put .. => .ok none
  | push v => .ok s!"push:{v.type.encode} {v.content.text}"
  | newArray t d => .ok s!"newarray[{d.shown}D] {t.encode}"
  | dup w => .ok s!"dup {w.shown}"
  | arrayStore t => .ok s!"array_store {t.encode}"
  | cast s t => .ok s!"cast {s.encode} {t.encode}"
  | arrayLoad t => .ok s!"array_load:{t.encode}"
  | arrayLength => .ok "arraylength"
  | invokeVirtual m => .ok s!"invoke virtual {m.encode}"
  | invokeStatic m => .ok s!"invoke static {m.encode}"
  | invokeInterface m n => .ok s!"invoke interface {m.encode} (stack_size={n.shown})"
  | invokeSpecial m i => .ok ("invoke special" ++ (if i then " interface " else " ") ++ m.encode)
  | store t i => .ok s!"store:{t.encode} {i.shown}"
  | binary t a => .ok s!"binary:{t.encode} {a.word}"
  | load t i => .ok s!"load:{t.encode} {i.shown}"
  | compare c t => .ok s!"if {c} {t.shown}"
  | get s f => .ok s!"get {fieldWord s} {f.encode}"
  | compareZero c t => .ok s!"ifz {c} {t.shown}"
  | new c =>
    match c.text? with
    | some n => .ok s!"new {n}"
    | none => .error (.wrongShape s!"__str__ returned non-string (type {Json.shape c})")
  | throw => .ok "throw"
  | incr i a => .ok s!"incr {i.shown} by {a.shown}"
  | goto t => .ok s!"goto {t.shown}"
  | ret t => .ok s!"return:{Signature.returnText t}"

/-- The conditions on numbers. -/
def conditionWords : List String := ["eq", "ne", "lt", "ge", "gt", "le"]

/-- The name of a jump: its stem with a condition on numbers, or its name for the same reference or
for another. -/
def jumpName? (stem same other c : String) : Option String :=
  if c ∈ conditionWords then some (stem ++ c)
  else if c = "is" then some same
  else if c = "isnot" then some other
  else none

/-- The name of the jump that compares two operands. -/
def compareName? : String → Option String := jumpName? "if_icmp" "if_acmpeq" "if_acmpne"

/-- The name of the jump that compares an operand with zero or null. -/
def compareZeroName? : String → Option String := jumpName? "if" "ifnull" "ifnonnull"

/-- The short form of an access to a local variable exists for the first four of them. -/
def shortIndexed (word : String) (i : Whole) : String :=
  if i.val < 4 then s!"{word}_{i.shown}" else s!"{word} {i.shown}"

def jumpText (name? : Option String) (c : String) (t : Whole) : Except Fault String :=
  match name? with
  | some n => .ok s!"{n} {t.shown}"
  | none => .error (.malformed s!"Unknown comparison condition: {c}")

/-- The real instruction for a constant number: the numbers -1 to 5 have one of their own. -/
def constantText (d : Datum) : String :=
  let isNumber (n : Int) : Bool := d == .int n
  if isNumber (-1) then "iconst_m1"
  else
    match [0, 1, 2, 3, 4, 5].find? isNumber with
    | some n => s!"iconst_{n}"
    | none => s!"ldc [{d.text}]"

end Op

namespace Instr

def unhandled (i : Instr) : Fault := .unsupported s!"Unhandled real {i.full}"

/-- The line that shows an instruction. -/
def line (i : Instr) : Except Fault String := do
  match ← i.op.line? with
  | some s => return s
  | none => return i.full

/-- An answer about an instruction, unless it shows a number that is too long to be written. A text
shows the data of the operation, and a refusal the full name. -/
def limited (i : Instr) (r : Except Fault String) : Except Fault String :=
  let shown : List Datum :=
    match r with
    | .ok _ => i.op.data
    | .error f =>
      match f.kind with
      | .unsupported => .ofJson i.offset :: i.op.data
      | .violated => i.op.data
      | _ => []
  if shown.all Datum.isWritable then r else .error Text.tooLong

/-- The real instruction, with numbers of any length. -/
def rendering (i : Instr) : Except Fault String :=
  match i.op with
  | .put s f => .ok s!"put{Op.fieldWord s} {f.encode}"
  | .push v =>
    match v.type with
    | .int => .ok (Op.constantText v.content)
    | .reference =>
      match v.content with
      | .null => .ok "aconst_null"
      | _ => .error (.violated s!"what is {v.math}")
    | _ => .error (.unsupported s!"Unhandled {i.full}")
  | .newArray t d =>
    .ok (if d.val = 1 then s!"newarray {t.encode}" else s!"multianewarray {t.encode} {d.shown}")
  | .dup w => if w.val = 1 then .ok "dup" else .error i.unhandled
  | .arrayStore .reference => .ok "aastore"
  | .arrayStore .int => .ok "iastore"
  | .arrayStore _ => .error i.unhandled
  | .cast .int .short => .ok "i2s"
  | .cast _ _ => .error i.unhandled
  | .arrayLoad .reference => .ok "aaload"
  | .arrayLoad .int => .ok "iaload"
  | .arrayLoad .char => .ok "caload"
  | .arrayLoad _ => .error i.unhandled
  | .arrayLength => .ok "arraylength"
  | .invokeVirtual _ => .error (.noMember "'AbsMethodID' object has no attribute 'dashed'")
  | .invokeStatic m => .ok s!"invokestatic {m.encode}"
  | .invokeInterface m n => .ok s!"invokeinterface {m.encode} {n.shown}"
  | .invokeSpecial m _ => .ok s!"invokespecial {m.encode}"
  | .store .reference n => .ok (Op.shortIndexed "astore" n)
  | .store .int n => .ok (Op.shortIndexed "istore" n)
  | .store _ _ => .error i.unhandled
  | .binary .int a => .ok ("i" ++ a.word)
  | .binary _ _ => .error i.unhandled
  | .load .reference n => .ok (Op.shortIndexed "aload" n)
  | .load .int n => .ok (Op.shortIndexed "iload" n)
  | .load _ _ => .error i.unhandled
  | .compare c t => Op.jumpText (Op.compareName? c) c t
  | .get s f => .ok s!"get{Op.fieldWord s} {f.encode}"
  | .compareZero c t => Op.jumpText (Op.compareZeroName? c) c t
  | .new c =>
    match c.text? with
    | some n => .ok ("new " ++ (ClassName.mk n).slashed)
    | none => .error (.noMember s!"'{Json.shape c}' object has no attribute 'split'")
  | .throw => .ok "athrow"
  | .incr n a => .ok s!"iinc {n.shown} {a.shown}"
  | .goto t => .ok s!"goto {t.shown}"
  | .ret none => .ok "return"
  | .ret (some t) =>
    match t with
    | .int => .ok "ireturn"
    | .long => .ok "lreturn"
    | .float => .ok "freturn"
    | .double => .ok "dreturn"
    | .reference => .ok "areturn"
    | t => .error (.malformed s!"Unknown return type: {t.encode}")

/-- The real instruction. -/
def real (i : Instr) : Except Fault String := i.limited i.rendering

/-- The mnemonic of a constant: short for the numbers -1 to 4. -/
def constantMnemonic (d : Datum) : Except Fault String := do
  if (← Datum.rel .lt (.int (-2)) d) && (← Datum.rel .lt d (.int 5)) then return "iconst_i"
  else return "ldc"

/-- The mnemonic of an access to a local variable. -/
def indexedMnemonic (word : String) (n : Whole) : String :=
  if n.val < 4 then word ++ "_n" else word

/-- The mnemonic under which the instruction is documented. -/
def mnemonic (i : Instr) : Except Fault String :=
  match i.op with
  | .put s _ => .ok (if s then "putstatic" else "putfield")
  | .push v =>
    match v.type with
    | .int => constantMnemonic v.content
    | .reference => .ok "aconst_null"
    | _ => i.limited (.error (.unsupported s!"Unhandled {i.full}"))
  | .newArray _ d => .ok (if d.val = 1 then "newarray" else "multianewarray")
  | .invokeVirtual _ => .ok "invokevirtual"
  | .invokeStatic _ => .ok "invokestatic"
  | .invokeInterface _ _ => .ok "invokeinterface"
  | .invokeSpecial _ _ => .ok "invokespecial"
  | .store .reference n => .ok (indexedMnemonic "astore" n)
  | .store .int n => .ok (indexedMnemonic "istore" n)
  | .store _ _ => .ok ""
  | .load .reference n => .ok (indexedMnemonic "aload" n)
  | .load .int n => .ok (indexedMnemonic "iload" n)
  | .load _ _ => .ok ""
  | .compare _ _ => .ok "if_icmp_cond"
  | .get s _ => .ok (if s then "getstatic" else "getfield")
  | .compareZero _ _ => .ok "if_cond"
  | .new _ => .ok "new"
  | .throw => .ok "athrow"
  | .incr _ _ => .ok "iinc"
  | .goto _ => .ok "goto"
  | _ => i.real

/-- Where the documentation of an instruction is found. -/
def documentation (i : Instr) : Except Fault String := do
  return "https://docs.oracle.com/javase/specs/jvms/se23/html/jvms-6.html#jvms-6.5." ++
    (← i.mnemonic)

/-- A rule in the form in which it is shown: each line is indented. -/
def rule (lines : List String) : String :=
  String.join (lines.map fun l => "\n        " ++ l) ++ "\n        "

/-- What is documented about the meaning of an instruction. -/
def semantics? (i : Instr) : Option String :=
  match i.op with
  | .newArray _ d => some (if d.val = 1 then "newarray" else "multianewarray")
  | .dup _ => some (rule
    ["bc[i].opr = 'dup'", "bc[i].words = 1", "-------------------------[dup1]",
      "(i, s + [v]) -> (i+1, s + [v, v])"])
  | .throw => some (rule
    ["bc[i].opr = 'throw'", "-------------------------[throw]",
      "bc |- (i, s + [objectref]) -> (handler_pc, [objectref]) if exception is caught",
      "bc |- (i, s + [objectref]) -> (⊥, [objectref]) if exception is uncaught",
      "where objectref must be an instance of Throwable or subclass"])
  | .incr _ _ => some (rule
    ["bc[i].opr = 'incr'", "bc[i].index = idx", "bc[i].amount = const",
      "-------------------------[iinc]", "bc |- (i, s) -> (i+1, s)",
      "where locals[idx] = locals[idx] + const"])
  | .goto _ => some (rule
    ["bc[i].opr = 'goto'", "bc[i].target = t", "-------------------------[goto]",
      "bc |- (i, s) -> (t, s)", "where t must be a valid instruction offset"])
  | _ => none

/-- What the user is told about an instruction: level and message. -/
def help (i : Instr) : Except Fault (List (String × String)) := do
  let warning := ("WARNING", "Instructions can be found at: " ++ (← i.documentation))
  match i.semantics? with
  | some s => return [warning, ("DEBUG", "Semantics:\n " ++ s)]
  | none => return [warning]

end Instr

end Assay
