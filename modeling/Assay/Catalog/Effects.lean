import Assay.Catalog.Basic

/-!
# Side effects

A method changes state if its own code does, or that of a method of the same class that it calls,
directly or through others. A called name means the first method of that name.
-/

namespace Assay

/-- The names that are called below a node, in order of their first byte. -/
def Source.calledNames (s : Source) (n : Node) : Except Fault (List String) :=
  (((n.ofKinds ["method_invocation"]).filterMap fun m => m.child? "name").mergeSort
    fun a b => a.start ≤ b.start).mapM s.textOf

/-- The node has an identifier as its name. -/
def Node.isNamed (n : Node) (name : String) : Bool :=
  match n.child? "name" with
  | some c => c.kind = "identifier" && c.text = name
  | none => false

/-- The first declaration of a method of a name in a file. -/
def Source.declaration (s : Source) (name : String) : Except Fault Node :=
  match (s.root.ofKind "method_declaration").find? (Node.isNamed · name) with
  | some n => .ok n
  | none => .error ⟨.missingKey, "'method'"⟩

namespace Class

/-- The names reached from `names` by calls, after those already seen. -/
def reach (known : String → Bool) (calls : String → Except Fault (List String)) :
    Nat → List String → List String → Except Fault (List String)
  | 0, _, seen => .ok seen
  | fuel + 1, names, seen =>
    names.foldlM (fun seen name => do
      if known name && !seen.contains name then
        reach known calls fuel (← calls name) (seen ++ [name])
      else return seen) seen

/-- The methods of the class that a method calls, directly or through others, in order of
discovery. -/
def chain (c : Class) (m : Method) : Except Fault (List String) := do
  let known (name : String) : Bool := (c.method? name).isSome
  let calls (name : String) : Except Fault (List String) := do
    c.source.calledNames (← c.source.declaration name)
  reach known calls (c.methods.length + 1) (← c.source.calledNames m.node) []

/-- Some method of a chain changes state. -/
def chainChanges (c : Class) : List String → Except Fault Bool
  | [] => .ok false
  | name :: names =>
    match c.method? name with
    | none => .error (.noMember "'NoneType' object has no attribute 'change_state'")
    | some m => if m.changesState then .ok true else chainChanges c names

/-- Every method has the flag of its own code. -/
def withOwnEffects (c : Class) : Class :=
  { c with methods := c.methods.map fun m => { m with changesState := m.node.changesState } }

/-- The flag of the method at an index takes account of the methods it calls. -/
def withCallEffects (c : Class) (i : Nat) : Except Fault Class :=
  match c.methods[i]? with
  | none => .ok c
  | some m =>
    if m.changesState then .ok c
    else do
      let changes ← c.chainChanges (← c.chain m)
      return { c with methods := c.methods.set i { m with changesState := changes } }

/-- The class with the flags of all methods. -/
def withEffects (c : Class) : Except Fault Class :=
  let c := c.withOwnEffects
  (List.range c.methods.length).foldlM withCallEffects c

end Class

end Assay
