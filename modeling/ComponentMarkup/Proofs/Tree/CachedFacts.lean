import ComponentMarkup.Proofs.Tree.Within
import ComponentMarkup.Script.Parser

/-!
# What a node knows of its subtree

A branch carries two facts about its subtree that are computed when it is built and never looked at again: how many
nodes there are and whether one of them is a fault.  Here it is shown that they stay right however a tree is built and
changed, so that what relies on them, as the search for faults does, agrees with what one finds in the tree itself.

* `Node.subtree` — the nodes of a tree, each before its children;
* `Node.walk` — the leaves and faults that are met when a tree is taken apart on a stack;
* `Node.Built` — the trees that can be built;
* `Node.Exact` — trees whose nodes know the facts of their subtrees, `Node.Built.exact` — which all these trees are;
* `Node.Built.facts` — the facts, the faults, the text and the leaves of such a tree.
-/

namespace ComponentMarkup.Tree.Node

open ComponentMarkup.Text

variable {n : Node} {ns : List Node}

/-! ## The nodes of a tree -/

/-- The nodes of a tree, each before its children. -/
def subtree (n : Node) : List Node :=
  (n.outline 0).map Prod.snd

/-- What is wrong at a node itself, if it is a fault. -/
def fault? : Node → Option Fault
  | leaf _ _ _ => none
  | inner _ _ _ _ _ _ => none
  | fault m hs _ s => some ⟨s, m, hs⟩

/-- Whether a node is a leaf or a fault. -/
def isTip : Node → Bool
  | leaf _ _ _ => true
  | inner _ _ _ _ _ _ => false
  | fault _ _ _ _ => true

mutual

/-- The nodes of an outline do not depend on the depth that it starts with. -/
theorem outline_depth (d e : Nat) : ∀ n : Node, (n.outline d).map Prod.snd = (n.outline e).map Prod.snd
  | leaf _ _ _ => rfl
  | inner _ _ _ _ _ cs => congrArg (List.cons _) (outlineOf_depth (d + 1) (e + 1) cs)
  | fault _ _ _ _ => rfl

theorem outlineOf_depth (d e : Nat) : ∀ ns : List Node,
    (outlineOf d ns).map Prod.snd = (outlineOf e ns).map Prod.snd
  | [] => rfl
  | c :: cs => by
      rw [outlineOf, outlineOf, List.map_append, List.map_append, outline_depth d e c, outlineOf_depth d e cs]

end

/-- The nodes of several trees are those of each. -/
theorem outlineOf_subtree (d : Nat) (ns : List Node) : (outlineOf d ns).map Prod.snd = ns.flatMap subtree := by
  induction ns with
  | nil => rfl
  | cons c cs ih =>
      rw [outlineOf, List.map_append, ih, List.flatMap_cons, outline_depth d 0 c]
      rfl

@[simp] theorem subtree_leaf (k : Kind) (t : String) (s : Span) : (leaf k t s).subtree = [leaf k t s] :=
  rfl

@[simp] theorem subtree_fault (m : String) (hs : List String) (t : String) (s : Span) :
    (fault m hs t s).subtree = [fault m hs t s] :=
  rfl

@[simp] theorem subtree_inner (k : Kind) (s : Span) (h : Option Choice) (c : Nat) (b : Bool) (cs : List Node) :
    (inner k s h c b cs).subtree = inner k s h c b cs :: cs.flatMap subtree :=
  congrArg (List.cons _) (outlineOf_subtree 1 cs)

/-! ## Leaves -/

mutual

/-- **The leaves of a tree** are its nodes without the branches. -/
theorem leaves_eq_filter : ∀ n : Node, n.leaves = n.subtree.filter isTip
  | leaf _ _ _ => rfl
  | inner k s h c b cs => by
      rw [leaves, subtree_inner, List.filter_cons_of_neg (by simp [isTip]), leavesOf_eq_filter cs]
  | fault _ _ _ _ => rfl

theorem leavesOf_eq_filter : ∀ ns : List Node, leavesOf ns = (ns.flatMap subtree).filter isTip
  | [] => rfl
  | c :: cs => by
      rw [leavesOf, List.flatMap_cons, List.filter_append, leaves_eq_filter c, leavesOf_eq_filter cs]

end

/-- The leaves and faults of the trees on a stack, in the order in which they are met: a branch on top is replaced by
its children, the first of them on top. -/
def walk : List Node → List Node
  | [] => []
  | leaf k t s :: stack => leaf k t s :: walk stack
  | inner _ _ _ _ _ cs :: stack => walk (cs ++ stack)
  | fault m hs t s :: stack => fault m hs t s :: walk stack
termination_by stack => (stack.flatMap subtree).length
decreasing_by all_goals simp [List.flatMap_append]

/-- Taking trees apart on a stack yields their leaves one after the other. -/
theorem walk_eq (stack : List Node) : walk stack = leavesOf stack := by
  fun_induction walk stack with
  | case1 => rfl
  | case2 k t s stack ih =>
      rw [ih]
      rfl
  | case3 k s h c b cs stack ih =>
      rw [ih, leavesOf_eq, List.flatMap_append, ← leavesOf_eq, ← leavesOf_eq]
      rfl
  | case4 m hs t s stack ih =>
      rw [ih]
      rfl

/-! ## Trees whose nodes know their subtrees -/

/-- A node that knows the facts of its subtree. -/
structure Knows (n : Node) : Prop where
  count : n.count = n.subtree.length
  faulty : n.faulty = true ↔ ∃ m ∈ n.subtree, m.fault?.isSome = true

/-- A tree whose nodes all know the facts of their subtrees. -/
abbrev Exact (n : Node) : Prop :=
  n.Throughout Knows

/-- What a branch knows is told by the nodes below it. -/
theorem knows_inner (k : Kind) (s : Span) (host : Option Choice) (c : Nat) (b : Bool) (cs : List Node) :
    (inner k s host c b cs).Knows ↔ c = (cs.flatMap subtree).length + 1 ∧
      (b = true ↔ ∃ m ∈ cs.flatMap subtree, m.fault?.isSome = true) := by
  have hbranch : (∃ m ∈ (inner k s host c b cs).subtree, m.fault?.isSome = true) ↔
      ∃ m ∈ cs.flatMap subtree, m.fault?.isSome = true := by
    simp [fault?]
  constructor
  · intro ⟨hcount, hfaulty⟩
    rw [subtree_inner, List.length_cons] at hcount
    exact ⟨hcount, hfaulty.trans hbranch⟩
  · intro ⟨hcount, hfaulty⟩
    refine ⟨?_, hfaulty.trans hbranch.symm⟩
    rw [subtree_inner, List.length_cons]
    exact hcount

theorem exact_leaf (k : Kind) (t : String) (s : Span) : (leaf k t s).Exact := by
  apply Throughout.intro
  · exact ⟨rfl, by simp [faulty, fault?]⟩
  · intro c hc
    exact absurd hc List.not_mem_nil

theorem exact_fault (m : String) (hs : List String) (t : String) (s : Span) : (fault m hs t s).Exact := by
  apply Throughout.intro
  · exact ⟨rfl, by simp [faulty, fault?]⟩
  · intro c hc
    exact absurd hc List.not_mem_nil

/-- The counts of trees, added up when a branch is built over them, count their nodes. -/
theorem foldr_count (h : ∀ c ∈ ns, c.Exact) :
    ns.foldr (fun child total => child.count + total) 1 = (ns.flatMap subtree).length + 1 := by
  induction ns with
  | nil => rfl
  | cons c cs ih =>
      have hcount := (h c List.mem_cons_self).here.count
      have hrest := ih fun d hd => h d (List.mem_cons_of_mem c hd)
      rw [List.foldr_cons, hrest, hcount, List.flatMap_cons, List.length_append]
      omega

/-- Whether one of several trees holds a fault is told by their roots. -/
theorem any_faulty (h : ∀ c ∈ ns, c.Exact) :
    ns.any faulty = true ↔ ∃ m ∈ ns.flatMap subtree, m.fault?.isSome = true := by
  rw [List.any_eq_true]
  constructor
  · intro ⟨c, hc, hfaulty⟩
    obtain ⟨m, hm, hfault⟩ := (h c hc).here.faulty.mp hfaulty
    exact ⟨m, List.mem_flatMap.mpr ⟨c, hc, hm⟩, hfault⟩
  · intro ⟨m, hm, hfault⟩
    obtain ⟨c, hc, hm⟩ := List.mem_flatMap.mp hm
    exact ⟨c, hc, (h c hc).here.faulty.mpr ⟨m, hm, hfault⟩⟩

/-- **A branch knows its subtree** when it is built over trees that know theirs. -/
theorem Exact.spanning (k : Kind) (s : Span) (host : Option Choice) (h : ∀ c ∈ ns, c.Exact) :
    (Node.spanning k s host ns).Exact := by
  apply Throughout.intro
  · exact (knows_inner k s host _ _ ns).mpr ⟨foldr_count h, any_faulty h⟩
  · exact h

theorem Exact.withChildren (hn : n.Exact) (h : ∀ c ∈ ns, c.Exact) : (n.withChildren ns).Exact := by
  cases n with
  | leaf => exact hn
  | inner k s host c b cs => exact Exact.spanning k s host h
  | fault => exact hn

theorem Exact.hint (hn : n.Exact) (text : String) : (n.hint text).Exact := by
  cases n with
  | leaf => exact hn
  | inner => exact hn
  | fault m hs t s => exact exact_fault m (hs ++ [text]) t s

theorem Exact.withKind (hn : n.Exact) (k : Kind) : (n.withKind k).Exact := by
  cases n with
  | leaf _ t s => exact exact_leaf k t s
  | fault => exact hn
  | inner k' s host c b cs =>
      apply Throughout.intro
      · exact (knows_inner k s host c b cs).mpr ((knows_inner k' s host c b cs).mp hn.here)
      · intro d hd
        exact hn.child hd

theorem Exact.faultOf (hn : n.Exact) (message : String) : (Script.Parser.faultOf n message).Exact := by
  unfold Script.Parser.faultOf
  split
  · exact hn
  · exact exact_fault _ _ _ _

/-- Moving the places of a tree changes nothing about what its nodes know. -/
theorem Exact.mapPlaces (hn : n.Exact) (f : Nat → Nat) : (n.mapPlaces f).Exact := by
  apply Throughout.mapPlaces _ hn
  intro m hm
  have hsubtree : (m.mapPlaces f).subtree = m.subtree.map (Node.mapPlaces f) := by
    rw [subtree, outline_mapPlaces, List.map_map, subtree, List.map_map]
    rfl
  have hfault : ∀ c : Node, (c.mapPlaces f).fault?.isSome = c.fault?.isSome := by
    intro c
    cases c <;> rfl
  constructor
  · rw [count_mapPlaces, hsubtree, List.length_map, hm.count]
  · rw [faulty_mapPlaces, hm.faulty, hsubtree]
    constructor
    · intro ⟨c, hc, hfaulty⟩
      exact ⟨_, List.mem_map_of_mem hc, (hfault c).trans hfaulty⟩
    · intro ⟨d, hd, hfaulty⟩
      obtain ⟨c, hc, rfl⟩ := List.mem_map.mp hd
      exact ⟨c, hc, (hfault c).symm.trans hfaulty⟩

/-! ## The search for faults -/

/-- A tree that is known to hold no fault has none among its leaves. -/
theorem Knows.quiet (h : n.Knows) (hfaulty : n.faulty = false) : n.leaves.filterMap fault? = [] := by
  rw [List.filterMap_eq_nil_iff]
  intro m hm
  rw [leaves_eq_filter] at hm
  cases hfault : m.fault? with
  | none => rfl
  | some fault =>
      have hholds := h.faulty.mpr ⟨m, (List.mem_filter.mp hm).1, Option.isSome_of_eq_some hfault⟩
      rw [hfaulty] at hholds
      exact Bool.noConfusion hholds

mutual

/-- **The search for faults finds all of them**, though it passes over subtrees that are known to hold none. -/
theorem Exact.faults_eq : ∀ {n : Node}, n.Exact → n.faults = n.leaves.filterMap fault?
  | leaf _ _ _, _ => rfl
  | inner _ _ _ _ true _, h => Exact.faultsOf_eq fun _ hd => h.child hd
  | inner _ _ _ _ false _, h => (h.here.quiet rfl).symm
  | fault _ _ _ _, _ => rfl

theorem Exact.faultsOf_eq : ∀ {ns : List Node}, (∀ c ∈ ns, c.Exact) →
    faultsOf ns = (leavesOf ns).filterMap fault?
  | [], _ => rfl
  | c :: cs, h => by
      have hfirst := h c List.mem_cons_self
      have hrest := Exact.faultsOf_eq fun d hd => h d (List.mem_cons_of_mem c hd)
      rw [faultsOf, leavesOf, List.filterMap_append, hrest]
      by_cases hfaulty : c.faulty = true
      · rw [if_pos hfaulty, Exact.faults_eq hfirst]
      · rw [if_neg hfaulty, hfirst.here.quiet (Bool.eq_false_iff.mpr hfaulty)]

end

/-! ## Trees that can be built -/

/-- A tree that is built from leaves, faults and branches, and changed in the ways there are: children taken out or
replaced, a hint added, another kind given, turned into a fault, its places counted otherwise. -/
inductive Built : Node → Prop where
  | leaf (kind : Kind) (text : String) (span : Span) : Built (.leaf kind text span)
  | fault (message : String) (hints : List String) (text : String) (span : Span) :
      Built (.fault message hints text span)
  | branch (kind : Kind) {children : List Node} (built : ∀ c ∈ children, Built c) : Built (.branch kind children)
  | empty (kind : Kind) (place : Nat) : Built (.empty kind place)
  | hosting (kind : Kind) (span : Span) (choice : Choice) {root : Node} (built : Built root) :
      Built (.hosting kind span choice root)
  | child {n c : Node} (built : Built n) (among : c ∈ n.children) : Built c
  | withChildren {n : Node} {children : List Node} (built : Built n) (parts : ∀ c ∈ children, Built c) :
      Built (n.withChildren children)
  | hint {n : Node} (built : Built n) (text : String) : Built (n.hint text)
  | withKind {n : Node} (built : Built n) (kind : Kind) : Built (n.withKind kind)
  | faultOf {n : Node} (built : Built n) (message : String) : Built (Script.Parser.faultOf n message)
  | mapPlaces {n : Node} (built : Built n) (f : Nat → Nat) : Built (n.mapPlaces f)

/-- **However a tree is built and changed, its nodes know their subtrees.** -/
theorem Built.exact (h : n.Built) : n.Exact := by
  induction h with
  | leaf kind text span => exact exact_leaf kind text span
  | fault message hints text span => exact exact_fault message hints text span
  | branch kind _ ih => exact Exact.spanning kind _ none ih
  | empty kind place =>
      apply Exact.spanning kind ⟨place, place⟩ none
      intro c hc
      exact absurd hc List.not_mem_nil
  | hosting kind span choice _ ih =>
      apply Exact.spanning kind span (some choice)
      intro c hc
      rw [List.mem_singleton.mp hc]
      exact ih
  | child _ among ih => exact ih.child among
  | withChildren _ _ ih ihs => exact ih.withChildren ihs
  | hint _ text ih => exact ih.hint text
  | withKind _ kind ih => exact ih.withKind kind
  | faultOf _ message ih => exact ih.faultOf message
  | mapPlaces _ f ih => exact ih.mapPlaces f

/-- **The facts of a tree are those of its nodes**, however it was built and changed.  Its count is the number of its
nodes, it is faulty if one of them is a fault, and its faults are those of its leaves in their order.  The leaves are
the nodes that are no branches, each before those that follow it in the text, and are met in this order on a stack.
Joined, their texts are the text of the tree. -/
theorem Built.facts (h : n.Built) :
    n.count = n.subtree.length ∧
      (n.faulty = true ↔ ∃ m ∈ n.subtree, m.fault?.isSome = true) ∧
      n.faults = (walk [n]).filterMap fault? ∧
      n.fullText = String.join ((walk [n]).map text) ∧
      n.leaves = walk [n] ∧
      walk [n] = n.subtree.filter isTip := by
  have hexact := h.exact
  have hwalk : walk [n] = n.leaves := by
    rw [walk_eq, leavesOf_eq, List.flatMap_singleton]
  refine ⟨hexact.here.count, hexact.here.faulty, ?_, ?_, hwalk.symm, ?_⟩
  · rw [hwalk, hexact.faults_eq]
  · rw [hwalk]
    rfl
  · rw [hwalk, leaves_eq_filter]

/-- A branch of three children, the last of them a fault with a hint, has four nodes and one fault. -/
theorem Built.facts_hinted :
    let broken := (Node.fault "unexpected comma" [] "," ⟨2, 3⟩).hint "remove it"
    let number := (Node.leaf (.script .ident) "1" ⟨1, 2⟩).withKind (.script .number)
    let host := Node.branch (.markup .script) [.leaf (.markup .text) "a" ⟨0, 1⟩, number, broken]
    host.Built ∧ host.subtree.length = 4 ∧ host.faults = [⟨⟨2, 3⟩, "unexpected comma", ["remove it"]⟩] ∧
      host.fullText = "a1," := by
  intro broken number host
  have hhost : host.Built := by
    apply Built.branch
    intro c hc
    simp only [List.mem_cons, List.not_mem_nil, or_false] at hc
    rcases hc with rfl | rfl | rfl
    · exact .leaf _ _ _
    · exact (Built.leaf _ _ _).withKind _
    · exact (Built.fault _ _ _ _).hint _
  obtain ⟨hcount, -, hfaults, htext, hleaves, -⟩ := Built.facts hhost
  rw [← hleaves] at hfaults htext
  exact ⟨hhost, hcount.symm, hfaults, htext⟩

end ComponentMarkup.Tree.Node
