import Mathlib.Data.List.Perm.Subperm
import Mathlib.Logic.Relation
import Assay.Catalog.Effects
import Assay.Proofs.Fallible

/-!
# Chains of calls

`Searched`: the search as it is without fuel. `Explored`: what a search leaves behind that was to
look for some names, having seen others before. It keeps what was seen, finds each of the names that
is known, finds with every new name all that is called by it, and finds nothing else. The search
never runs out of fuel, since the fuel and the names seen together stay above the number of methods.
So the chain of a method holds exactly the methods that it reaches by one or more calls.
-/

namespace Assay

open Relation

namespace Node

/-- A node stands in the tree of another. -/
inductive Within : Node → Node → Prop
  | self (n : Node) : Within n n
  | child {x c n : Node} (hc : c ∈ n.children) (h : Within x c) : Within x n

mutual

theorem mem_all {x : Node} : ∀ n : Node, x ∈ n.all ↔ Within x n
  | ⟨kind, text, children, fields, start, stop, row, endRow⟩ => by
    rw [all, List.mem_cons, mem_allOf children]
    constructor
    · rintro (rfl | ⟨c, hc, h⟩)
      exacts [.self _, .child hc h]
    · intro h
      cases h with
      | self => exact .inl rfl
      | child hc h => exact .inr ⟨_, hc, h⟩

theorem mem_allOf {x : Node} : ∀ cs : List Node, x ∈ allOf cs ↔ ∃ c ∈ cs, Within x c
  | [] => by simp [allOf]
  | c :: cs => by
    rw [allOf, List.mem_append, mem_all c, mem_allOf cs]
    simp

end

end Node

namespace Source

/-- A method of this name is called below a node. -/
def Invokes (s : Source) (n : Node) (name : String) : Prop :=
  ∃ call x : Node, call.Within n ∧ call.kind = "method_invocation" ∧ call.child? "name" = some x ∧
    s.textOf x = .ok name

theorem mem_calledNames {s : Source} {n : Node} {names : List String}
    (h : s.calledNames n = .ok names) (name : String) : name ∈ names ↔ s.Invokes n name := by
  rw [mem_of_mapM h]
  simp only [List.mem_mergeSort, List.mem_filterMap, Node.ofKinds, List.mem_filter,
    Node.mem_all, Invokes]
  constructor
  · rintro ⟨x, ⟨call, ⟨hin, hkind⟩, hx⟩, htext⟩
    exact ⟨call, x, hin, by simpa using hkind, hx, htext⟩
  · rintro ⟨call, x, hin, hkind, hx, htext⟩
    exact ⟨x, ⟨call, ⟨hin, by simpa using hkind⟩, hx⟩, htext⟩

theorem calledNames_singleton {s : Source} {n call x : Node} {name : String}
    (hcall : n.ofKinds ["method_invocation"] = [call]) (hx : call.child? "name" = some x)
    (hname : s.textOf x = .ok name) : s.calledNames n = .ok [name] := by
  have hnames : [call].filterMap (fun m => m.child? "name") = [x] := List.filterMap_cons_some hx
  rw [calledNames, hcall, hnames, List.mergeSort_singleton]
  exact mapM_eq_ok.2 (.cons hname .nil)

end Source

namespace Class

section Search

variable (known : String → Bool) (next : String → List String)

/-- A name calls a known one. -/
def Edge (a b : String) : Prop := b ∈ next a ∧ known b = true

structure Explored (names seen out : List String) : Prop where
  keeps : ∀ x ∈ seen, x ∈ out
  nodup : out.Nodup
  all : ∀ x ∈ out, known x = true
  finds : ∀ x ∈ names, known x = true → x ∈ out
  closed : ∀ x ∈ out, x ∉ seen → ∀ y, Edge known next x y → y ∈ out
  sound : ∀ x ∈ out, x ∉ seen → ∃ y ∈ names, known y = true ∧ ReflTransGen (Edge known next) y x

namespace Explored

variable {known next} {name : String} {names seen mid out : List String}

theorem nil (hn : seen.Nodup) (hk : ∀ x ∈ seen, known x = true) :
    Explored known next [] seen seen where
  keeps _ hx := hx
  nodup := hn
  all := hk
  finds _ hx := absurd hx List.not_mem_nil
  closed _ hx h := absurd hx h
  sound _ hx h := absurd hx h

/-- A name that is not known, or that was seen, is passed over. -/
theorem skip (hn : seen.Nodup) (hk : ∀ x ∈ seen, known x = true)
    (h : known name = true → name ∈ seen) :
    Explored known next [name] seen seen where
  keeps _ hx := hx
  nodup := hn
  all := hk
  finds x hx hkx := by
    obtain rfl := List.mem_singleton.1 hx
    exact h hkx
  closed _ hx h := absurd hx h
  sound _ hx h := absurd hx h

/-- A new name is found with all that it calls. -/
theorem visit (hk : known name = true) (h : Explored known next (next name) (seen ++ [name]) out) :
    Explored known next [name] seen out where
  keeps x hx := h.keeps x (List.mem_append_left _ hx)
  nodup := h.nodup
  all := h.all
  finds x hx _ := h.keeps x (List.mem_append_right _ hx)
  closed x hx hnew y hy := by
    by_cases hname : x = name
    · subst hname
      exact h.finds y hy.1 hy.2
    · exact h.closed x hx (by simp [hnew, hname]) y hy
  sound x hx hnew := by
    by_cases hname : x = name
    · exact ⟨name, List.mem_singleton_self name, hk, hname ▸ .refl⟩
    · obtain ⟨y, hy, hky, hpath⟩ := h.sound x hx (by simp [hnew, hname])
      exact ⟨name, List.mem_singleton_self name, hk, .head ⟨hy, hky⟩ hpath⟩

/-- One search after another. -/
theorem trans (h : Explored known next [name] seen mid) (h' : Explored known next names mid out) :
    Explored known next (name :: names) seen out where
  keeps x hx := h'.keeps x (h.keeps x hx)
  nodup := h'.nodup
  all := h'.all
  finds x hx hkx := by
    rcases List.mem_cons.1 hx with rfl | hx
    · exact h'.keeps _ (h.finds _ (List.mem_singleton_self _) hkx)
    · exact h'.finds x hx hkx
  closed x hx hnew y hy := by
    by_cases hmid : x ∈ mid
    · exact h'.keeps y (h.closed x hmid hnew y hy)
    · exact h'.closed x hx hmid y hy
  sound x hx hnew := by
    by_cases hmid : x ∈ mid
    · obtain ⟨y, hy, hpath⟩ := h.sound x hmid hnew
      exact ⟨y, by rw [List.mem_singleton.1 hy]; exact List.mem_cons_self, hpath⟩
    · obtain ⟨y, hy, hpath⟩ := h'.sound x hx hmid
      exact ⟨y, List.mem_cons_of_mem _ hy, hpath⟩

theorem length_le (h : Explored known next names seen out) (hn : seen.Nodup) :
    seen.length ≤ out.length :=
  (hn.subperm h.keeps).length_le

/-- A search that has seen nothing before finds what can be reached. -/
theorem mem_iff (h : Explored known next names [] out) (x : String) :
    x ∈ out ↔ ∃ y ∈ names, known y = true ∧ ReflTransGen (Edge known next) y x := by
  refine ⟨fun hx => h.sound x hx List.not_mem_nil, ?_⟩
  rintro ⟨y, hy, hky, hpath⟩
  induction hpath with
  | refl => exact h.finds y hy hky
  | tail _ hedge ih => exact h.closed _ ih List.not_mem_nil _ hedge

end Explored

variable {known next} {calls : String → Except Fault (List String)} {name : String}
  {names called seen mid out : List String}

/-- The search without a bound. A name that is not known or that was seen is passed over; for any
other, all that it calls is searched before the names that follow it. -/
inductive Searched (known : String → Bool) (calls : String → Except Fault (List String)) :
    List String → List String → List String → Prop
  | done (seen : List String) : Searched known calls [] seen seen
  | skip {name : String} {names seen out : List String} (h : known name = true → name ∈ seen)
      (hrest : Searched known calls names seen out) : Searched known calls (name :: names) seen out
  | visit {name : String} {names called seen mid out : List String} (hk : known name = true)
      (hnew : name ∉ seen) (hcalls : calls name = .ok called)
      (hbelow : Searched known calls called (seen ++ [name]) mid)
      (hrest : Searched known calls names mid out) : Searched known calls (name :: names) seen out

theorem nodup_seen_append (hn : seen.Nodup) (hnew : name ∉ seen) : (seen ++ [name]).Nodup := by
  refine List.nodup_append.2 ⟨hn, List.pairwise_singleton _ name, ?_⟩
  rintro x hx _ hname rfl
  exact hnew (List.mem_singleton.1 hname ▸ hx)

theorem known_seen_append (hk : ∀ x ∈ seen, known x = true) (hname : known name = true) :
    ∀ x ∈ seen ++ [name], known x = true := by
  simpa [or_imp, forall_and] using ⟨hk, hname⟩

theorem Searched.explored (hcalls : ∀ x, known x = true → calls x = .ok (next x))
    (h : Searched known calls names seen out) (hn : seen.Nodup) (hk : ∀ x ∈ seen, known x = true) :
    Explored known next names seen out := by
  induction h with
  | done seen => exact .nil hn hk
  | skip hskip _ ih => exact (Explored.skip hn hk hskip).trans (ih hn hk)
  | visit hname hnew hcalled _ _ ihbelow ihrest =>
    -- what was found below the name counts as seen for the names that follow
    obtain rfl := Except.ok.inj (hcalled.symm.trans (hcalls _ hname))
    have hbelow := ihbelow (nodup_seen_append hn hnew) (known_seen_append hk hname)
    exact (Explored.visit hname hbelow).trans (ihrest hbelow.nodup hbelow.all)

theorem reach_skip (fuel : Nat) (h : known name = true → name ∈ seen) :
    reach known calls (fuel + 1) (name :: names) seen =
      reach known calls (fuel + 1) names seen := by
  rw [reach, reach, List.foldlM_cons, if_neg (by simpa using h)]
  rfl

theorem reach_visit {fuel : Nat} (hk : known name = true) (hnew : name ∉ seen)
    (hcalls : calls name = .ok called)
    (hbelow : reach known calls fuel called (seen ++ [name]) = .ok mid) :
    reach known calls (fuel + 1) (name :: names) seen = reach known calls (fuel + 1) names mid := by
  rw [reach, reach, List.foldlM_cons, if_pos (by simp [hk, hnew]), hcalls, ok_bind, hbelow]
  rfl

/-- The search ends if every known name can be looked up, and its bound does not cut it off if fuel
and names seen are together more than the names there are. -/
theorem reach_searched (hcalls : ∀ x, known x = true → calls x = .ok (next x)) {bound : List String}
    (hbound : ∀ x, known x = true → x ∈ bound) (fuel : Nat) (names seen : List String)
    (hn : seen.Nodup) (hk : ∀ x ∈ seen, known x = true) (hf : bound.length < fuel + seen.length) :
    ∃ out, reach known calls fuel names seen = .ok out ∧ Searched known calls names seen out := by
  induction fuel generalizing names seen with
  | zero =>
    have hle := (hn.subperm fun x hx => hbound x (hk x hx)).length_le
    omega
  | succ fuel ih =>
    induction names generalizing seen with
    | nil => exact ⟨seen, rfl, .done seen⟩
    | cons name names ihnames =>
      by_cases hvisit : known name = true ∧ name ∉ seen
      · -- the new name leads to `mid`, the others go on from there
        obtain ⟨hname, hnew⟩ := hvisit
        have hnodup := nodup_seen_append hn hnew
        have hlen : (seen ++ [name]).length = seen.length + 1 := by simp
        obtain ⟨mid, hreach, hbelow⟩ :=
          ih (next name) (seen ++ [name]) hnodup (known_seen_append hk hname) (by omega)
        have hmid := hbelow.explored hcalls hnodup (known_seen_append hk hname)
        have hlonger := hmid.length_le hnodup
        obtain ⟨out, hout, hrest⟩ := ihnames mid hmid.nodup hmid.all (by omega)
        exact ⟨out, (reach_visit hname hnew (hcalls name hname) hreach).trans hout,
          .visit hname hnew (hcalls name hname) hbelow hrest⟩
      · have hskip : known name = true → name ∈ seen :=
          fun hname => by_contra fun hnew => hvisit ⟨hname, hnew⟩
        obtain ⟨out, hout, hrest⟩ := ihnames seen hn hk hf
        exact ⟨out, (reach_skip fuel hskip).trans hout, .skip hskip hrest⟩

end Search

/-- The class is that of its source file: a name of one of its methods is declared where the first
method of that name stands, and the names of called methods can be read. -/
structure Resolves (c : Class) : Prop where
  declared : ∀ name m, c.method? name = some m → c.source.declaration name = .ok m.node
  readable : ∀ m ∈ c.methods, ∃ names, c.source.calledNames m.node = .ok names

/-- A method calls another of the class. A called name means the first method of that name. -/
def Calls (c : Class) (m m' : Method) : Prop :=
  ∃ name, c.source.Invokes m.node name ∧ c.method? name = some m'

variable {c : Class} {m m' : Method} {name : String}

theorem mem_of_method? (h : c.method? name = some m) : m ∈ c.methods := List.mem_of_find?_eq_some h

theorem name_of_method? (h : c.method? name = some m) : m.name = name := by
  simpa using List.find?_some h

/-- The names that the method of a name calls. -/
def calledBy (c : Class) (name : String) : List String :=
  match c.method? name with
  | some m => (c.source.calledNames m.node).toOption.getD []
  | none => []

theorem Resolves.mem_calledBy (h : c.Resolves) (hm : c.method? name = some m) (called : String) :
    called ∈ c.calledBy name ↔ c.source.Invokes m.node called := by
  obtain ⟨names, hnames⟩ := h.readable m (mem_of_method? hm)
  rw [← Source.mem_calledNames hnames]
  simp [calledBy, hm, hnames, Except.toOption]

/-- The edges between names of methods. -/
abbrev NameEdge (c : Class) : String → String → Prop :=
  Edge (fun x => (c.method? x).isSome) c.calledBy

/-- A path of names is a path of calls. -/
theorem Resolves.transGen_of_path (h : c.Resolves) {first : String}
    (hcall : c.source.Invokes m.node first) (hknown : (c.method? first).isSome = true)
    (hpath : ReflTransGen c.NameEdge first name) :
    ∃ m', c.method? name = some m' ∧ TransGen c.Calls m m' := by
  induction hpath with
  | refl =>
    obtain ⟨m', hm'⟩ := Option.isSome_iff_exists.1 hknown
    exact ⟨m', hm', .single ⟨first, hcall, hm'⟩⟩
  | @tail b d _ hedge ih =>
    obtain ⟨mb, hmb, hreach⟩ := ih
    obtain ⟨md, hmd⟩ := Option.isSome_iff_exists.1 hedge.2
    exact ⟨md, hmd, hreach.tail ⟨d, (h.mem_calledBy hmb d).1 hedge.1, hmd⟩⟩

/-- A path of calls is a path of names. -/
theorem Resolves.path_of_transGen (h : c.Resolves) (hreach : TransGen c.Calls m m') :
    c.method? m'.name = some m' ∧ ∃ first, c.source.Invokes m.node first ∧
      (c.method? first).isSome = true ∧ ReflTransGen c.NameEdge first m'.name := by
  induction hreach with
  | single hcall =>
    obtain ⟨first, hinvoke, hm⟩ := hcall
    obtain rfl := name_of_method? hm
    exact ⟨hm, _, hinvoke, by simp [hm], .refl⟩
  | tail _ hcall ih =>
    obtain ⟨hb, first, hinvoke, hknown, hpath⟩ := ih
    obtain ⟨d, hd, hm⟩ := hcall
    obtain rfl := name_of_method? hm
    exact ⟨hm, first, hinvoke, hknown, hpath.tail ⟨(h.mem_calledBy hb _).2 hd, by simp [hm]⟩⟩

/-- The names called in the first declaration of a name. -/
def callsOf (c : Class) (name : String) : Except Fault (List String) := do
  c.source.calledNames (← c.source.declaration name)

/-- The search that begins with the names that a method calls comes to its end, having found
`names`. -/
def Finds (c : Class) (m : Method) (names : List String) : Prop :=
  ∃ called, c.source.calledNames m.node = .ok called ∧
    Searched (fun x => (c.method? x).isSome) c.callsOf called [] names

theorem Resolves.callsOf_eq (h : c.Resolves) {x : String} (hx : (c.method? x).isSome = true) :
    c.callsOf x = .ok (c.calledBy x) := by
  obtain ⟨mx, hmx⟩ := Option.isSome_iff_exists.1 hx
  obtain ⟨names, hnames⟩ := h.readable mx (mem_of_method? hmx)
  simp only [callsOf, h.declared x mx hmx, ok_bind, calledBy, hmx, hnames]
  rfl

/-- The chain of a method is what the search finds, which is never cut off. -/
theorem Resolves.chain_finds (h : c.Resolves) (hm : m ∈ c.methods) :
    ∃ names, c.chain m = .ok names ∧ c.Finds m names := by
  obtain ⟨called, hcalled⟩ := h.readable m hm
  have hbound : ∀ x, (c.method? x).isSome = true → x ∈ c.methods.map Method.name := by
    intro x hx
    obtain ⟨mx, hmx⟩ := Option.isSome_iff_exists.1 hx
    exact List.mem_map.2 ⟨mx, mem_of_method? hmx, name_of_method? hmx⟩
  obtain ⟨names, hreach, hsearch⟩ :=
    reach_searched (fun _ => h.callsOf_eq) hbound (c.methods.length + 1) called []
    List.nodup_nil (by simp) (by simp)
  exact ⟨names, by rw [chain, hcalled]; exact hreach, called, hcalled, hsearch⟩

theorem Finds.nodup {names : List String} (hfinds : c.Finds m names) (h : c.Resolves) :
    names.Nodup := by
  obtain ⟨called, -, hsearch⟩ := hfinds
  exact (hsearch.explored (fun _ => h.callsOf_eq) List.nodup_nil (by simp)).nodup

theorem Finds.mem_iff {names : List String} (hfinds : c.Finds m names) (h : c.Resolves)
    (name : String) :
    name ∈ names ↔ ∃ m', c.method? name = some m' ∧ TransGen c.Calls m m' := by
  obtain ⟨called, hcalled, hsearch⟩ := hfinds
  rw [(hsearch.explored (fun _ => h.callsOf_eq) List.nodup_nil (by simp)).mem_iff]
  constructor
  · rintro ⟨first, hfirst, hknown, hpath⟩
    exact h.transGen_of_path ((Source.mem_calledNames hcalled first).1 hfirst) hknown hpath
  · rintro ⟨m', hm', hreach⟩
    obtain ⟨-, first, hinvoke, hknown, hpath⟩ := h.path_of_transGen hreach
    exact ⟨first, (Source.mem_calledNames hcalled first).2 hinvoke, hknown,
      name_of_method? hm' ▸ hpath⟩

/-- The chain of a method holds the methods that it reaches by one or more calls. -/
theorem Resolves.chain_eq (h : c.Resolves) (hm : m ∈ c.methods) :
    ∃ names, c.chain m = .ok names ∧
      ∀ name, name ∈ names ↔ ∃ m', c.method? name = some m' ∧ TransGen c.Calls m m' := by
  obtain ⟨names, hchain, hfinds⟩ := h.chain_finds hm
  exact ⟨names, hchain, hfinds.mem_iff h⟩

end Class

end Assay
