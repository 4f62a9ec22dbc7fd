import ComponentMarkup.Tree.Node

/-!
# Trees that tile their text

A tree loses nothing of the text it was read from if two things hold.  Every leaf and fault has the text
that its stretch holds, and the children of a branch follow each other without gaps from the start of the
branch to its end.  `Node.Tiles` says so of a whole tree, for any relation between stretches and the texts
they hold: places may be counted in characters or in bytes.

* `Run.append`, `Run.split` — runs of nodes are put together and taken apart;
* `Run.branch`, `Run.branchAt` — the ways to build a branch keep the tiling;
* `Node.Tiles.holds_fullText` — the leaves of a tree spell out the text of its stretch;
* `Node.outline_tiles` — the nodes below a tree tile what they cover and do not reach outside the tree.
-/

namespace ComponentMarkup.Tree

open ComponentMarkup.Text

variable {holds : Span → String → Prop}

/-- Nodes that lead from one place to another: each starts where the one before it stops. -/
def Chain (start stop : Nat) : List Node → Prop
  | [] => start = stop
  | n :: ns => n.start = start ∧ Chain n.stop stop ns

/-- A tree whose leaves and faults have the texts that their stretches hold and whose branches are covered
by their children.  A branch without children covers nothing, and one that hosts another grammar has the
tree of that grammar as its only child. -/
inductive Node.Tiles (holds : Span → String → Prop) : Node → Prop
  | leaf {kind : Kind} {text : String} {span : Span} (text_eq : holds span text) :
      Node.Tiles holds (.leaf kind text span)
  | fault {message : String} {hints : List String} {text : String} {span : Span}
      (text_eq : holds span text) : Node.Tiles holds (.fault message hints text span)
  | inner {kind : Kind} {span : Span} {host : Option Choice} {count : Nat} {faulty : Bool}
      {children : List Node} (chain : Chain span.start span.stop children)
      (empty : children = [] → holds span "")
      (hosted : host.isSome → children.length = 1)
      (parts : ∀ child ∈ children, Node.Tiles holds child) :
      Node.Tiles holds (.inner kind span host count faulty children)

/-- What a relation between stretches and texts must satisfy for trees to spell out their text. -/
structure Joinable (holds : Span → String → Prop) : Prop where
  /-- No stretch ends before it starts. -/
  le : ∀ {span text}, holds span text → span.start ≤ span.stop
  /-- Stretches that touch hold their texts one after the other. -/
  join : ∀ {a b c first second}, holds ⟨a, b⟩ first → holds ⟨b, c⟩ second →
    holds ⟨a, c⟩ (first ++ second)

/-- Trees that lead from one place to another and tile what they cover. -/
structure Run (holds : Span → String → Prop) (start stop : Nat) (nodes : List Node) : Prop where
  /-- Each starts where the one before it stops. -/
  chain : Chain start stop nodes
  /-- Each tiles its stretch. -/
  tiles : ∀ n ∈ nodes, n.Tiles holds

/-! ## Chains -/

theorem Chain.append {a b c : Nat} {xs ys : List Node} (hx : Chain a b xs) (hy : Chain b c ys) :
    Chain a c (xs ++ ys) := by
  induction xs generalizing a with
  | nil => cases hx; exact hy
  | cons x xs ih => exact ⟨hx.1, ih hx.2⟩

theorem Chain.split {a c : Nat} {xs ys : List Node} (h : Chain a c (xs ++ ys)) :
    ∃ b, Chain a b xs ∧ Chain b c ys := by
  induction xs generalizing a with
  | nil => exact ⟨a, rfl, h⟩
  | cons x xs ih =>
      obtain ⟨b, hx, hy⟩ := ih h.2
      exact ⟨b, ⟨h.1, hx⟩, hy⟩

/-- Where a chain starts. -/
theorem Chain.start_eq {a b : Nat} {ns : List Node} (h : Chain a b ns) (hne : ns ≠ []) :
    (ns.head?.map Node.start).getD 0 = a := by
  cases ns with
  | nil => exact absurd rfl hne
  | cons n ns => exact h.1

/-- Where a chain stops, told by its last node. -/
theorem Chain.stop_eq {a b : Nat} {ns : List Node} (h : Chain a b ns) :
    (ns.getLast?.map Node.stop).getD a = b := by
  induction ns generalizing a with
  | nil => exact h
  | cons n ns ih =>
      have htail := ih h.2
      cases ns with
      | nil => exact htail
      | cons m ms =>
          rw [List.getLast?_cons_cons, List.getLast?_eq_some_getLast (List.cons_ne_nil m ms)]
          rwa [List.getLast?_eq_some_getLast (List.cons_ne_nil m ms)] at htail

/-- A chain stops in one place only. -/
theorem Chain.stop_unique {a b c : Nat} {ns : List Node} (hb : Chain a b ns) (hc : Chain a c ns) :
    b = c :=
  hb.stop_eq.symm.trans hc.stop_eq

/-- A chain of as many nodes with the same stretches leads to the same place. -/
theorem Chain.congr {a b : Nat} {ns ms : List Node} (h : Chain a b ns)
    (hspan : ms.map Node.span = ns.map Node.span) : Chain a b ms := by
  induction ns generalizing a ms with
  | nil =>
      have hms : ms = [] := by simpa using hspan
      rw [hms]
      exact h
  | cons n ns ih =>
      cases ms with
      | nil => simp at hspan
      | cons m ms =>
          simp only [List.map_cons, List.cons.injEq] at hspan
          have hstart : m.start = n.start := by rw [Node.start, hspan.1, Node.start]
          have hstop : m.stop = n.stop := by rw [Node.stop, hspan.1, Node.stop]
          refine ⟨hstart.trans h.1, ?_⟩
          rw [hstop]
          exact ih h.2 hspan.2

/-! ## Runs -/

namespace Run

theorem nil (a : Nat) : Run holds a a [] :=
  ⟨rfl, fun _ hn => absurd hn List.not_mem_nil⟩

theorem cons {n : Node} {ns : List Node} {b : Nat} (hn : n.Tiles holds) (h : Run holds n.stop b ns) :
    Run holds n.start b (n :: ns) := by
  refine ⟨⟨rfl, h.chain⟩, ?_⟩
  intro m hm
  rcases List.mem_cons.mp hm with rfl | hm
  · exact hn
  · exact h.tiles m hm

theorem single {n : Node} (hn : n.Tiles holds) : Run holds n.start n.stop [n] :=
  cons hn (nil _)

theorem append {a b c : Nat} {xs ys : List Node} (hx : Run holds a b xs) (hy : Run holds b c ys) :
    Run holds a c (xs ++ ys) := by
  refine ⟨hx.chain.append hy.chain, ?_⟩
  intro n hn
  rcases List.mem_append.mp hn with hn | hn
  · exact hx.tiles n hn
  · exact hy.tiles n hn

theorem split {a c : Nat} {xs ys : List Node} (h : Run holds a c (xs ++ ys)) :
    ∃ b, Run holds a b xs ∧ Run holds b c ys := by
  obtain ⟨b, hx, hy⟩ := h.chain.split
  exact ⟨b, ⟨hx, fun n hn => h.tiles n (List.mem_append_left _ hn)⟩,
    ⟨hy, fun n hn => h.tiles n (List.mem_append_right _ hn)⟩⟩

theorem of_cons {a b : Nat} {n : Node} {ns : List Node} (h : Run holds a b (n :: ns)) :
    n.start = a ∧ n.Tiles holds ∧ Run holds n.stop b ns :=
  ⟨h.chain.1, h.tiles n List.mem_cons_self, h.chain.2,
    fun m hm => h.tiles m (List.mem_cons_of_mem _ hm)⟩

theorem concat {a : Nat} {ns : List Node} {n : Node} (h : Run holds a n.start ns)
    (hn : n.Tiles holds) : Run holds a n.stop (ns ++ [n]) :=
  h.append (single hn)

/-- A node may give way to another one in its place. -/
theorem set {a b : Nat} {ns : List Node} {i : Nat} {m : Node} (h : Run holds a b ns)
    (hm : m.Tiles holds) (hspan : ∀ n, ns[i]? = some n → m.span = n.span) :
    Run holds a b (ns.set i m) := by
  refine ⟨h.chain.congr ?_, ?_⟩
  · rw [List.map_set]
    by_cases hi : i < ns.length
    · have hlen : i < (ns.map Node.span).length := by rwa [List.length_map]
      have hsame : m.span = (ns.map Node.span)[i] := by
        rw [List.getElem_map]
        exact hspan _ (List.getElem?_eq_getElem hi)
      rw [hsame, List.set_getElem_self]
    · rw [List.set_eq_of_length_le (by rw [List.length_map]; omega)]
  · intro n hn
    rcases List.mem_or_eq_of_mem_set hn with hn | rfl
    · exact h.tiles n hn
    · exact hm

end Run

/-! ## The text of a tree -/

/-- The leaves of several trees, tree by tree. -/
theorem Node.leavesOf_eq (ns : List Node) : Node.leavesOf ns = ns.flatMap Node.leaves := by
  induction ns with
  | nil => rfl
  | cons n ns ih => simp [Node.leavesOf, ih]

/-- The text of a branch is that of its children. -/
theorem Node.fullText_inner {kind : Kind} {span : Span} {host : Option Choice} {count : Nat}
    {faulty : Bool} {children : List Node} :
    (Node.inner kind span host count faulty children).fullText =
      String.join (children.map Node.fullText) := by
  simp only [Node.fullText, Node.leaves, Node.leavesOf_eq]
  induction children with
  | nil => rfl
  | cons n ns ih =>
      simp only [List.flatMap_cons, List.map_append, String.join_append, List.map_cons,
        String.join_cons, ih]
      rfl

/-- The texts of a chain of nodes, each of which holds its text, make up the text of the whole. -/
theorem Chain.holds_join (hj : Joinable holds) {a b : Nat} {ns : List Node} (h : Chain a b ns)
    (hne : ns ≠ []) (hns : ∀ n ∈ ns, holds n.span n.fullText) :
    holds ⟨a, b⟩ (String.join (ns.map Node.fullText)) := by
  induction ns generalizing a with
  | nil => exact absurd rfl hne
  | cons n ns ih =>
      obtain ⟨rfl, htail⟩ := h
      have hn : holds ⟨n.start, n.stop⟩ n.fullText := hns n List.mem_cons_self
      cases ns with
      | nil =>
          cases htail
          simpa using hn
      | cons m ms =>
          have hrest := ih htail (List.cons_ne_nil m ms)
            (fun k hk => hns k (List.mem_cons_of_mem _ hk))
          simpa using hj.join hn hrest

namespace Node.Tiles

/-- **A tree spells out its text.**  The texts of its leaves, put together, are what its stretch holds. -/
theorem holds_fullText (hj : Joinable holds) {n : Node} (h : n.Tiles holds) :
    holds n.span n.fullText := by
  induction h with
  | leaf text_eq => simpa [Node.fullText, Node.leaves, Node.text, Node.span] using text_eq
  | fault text_eq => simpa [Node.fullText, Node.leaves, Node.text, Node.span] using text_eq
  | @inner kind span host count faulty children chain empty _ _ ih =>
      rw [Node.fullText_inner]
      by_cases hne : children = []
      · subst hne
        exact empty rfl
      · exact chain.holds_join hj hne ih

/-- No tree stops before it starts. -/
theorem le (hj : Joinable holds) {n : Node} (h : n.Tiles holds) : n.start ≤ n.stop :=
  hj.le (h.holds_fullText hj)

end Node.Tiles

/-- No run stops before it starts. -/
theorem Run.le (hj : Joinable holds) {a b : Nat} {ns : List Node} (h : Run holds a b ns) : a ≤ b := by
  induction ns generalizing a with
  | nil => exact Nat.le_of_eq h.chain
  | cons n ns ih =>
      obtain ⟨rfl, hn, htail⟩ := h.of_cons
      exact Nat.le_trans (hn.le hj) (ih htail)

/-- A run over some text has nodes. -/
theorem Run.ne_nil {a b : Nat} {ns : List Node} (h : Run holds a b ns) (hlt : a < b) : ns ≠ [] := by
  rintro rfl
  exact absurd h.chain (Nat.ne_of_lt hlt)

/-- No node of a run reaches behind its end. -/
theorem Run.stop_le (hj : Joinable holds) {a b : Nat} {ns : List Node} (h : Run holds a b ns) {n : Node}
    (hn : n ∈ ns) : n.stop ≤ b := by
  obtain ⟨before, after, rfl⟩ := List.append_of_mem hn
  obtain ⟨_, _, htail⟩ := h.split
  exact htail.of_cons.2.2.le hj

/-! ## Building branches -/

/-- A branch over a stretch that its children cover. -/
theorem Run.spanning {kind : Kind} {span : Span} {host : Option Choice} {children : List Node}
    (h : Run holds span.start span.stop children) (hne : children ≠ [])
    (hosted : host.isSome → children.length = 1) :
    (Node.spanning kind span host children).Tiles holds :=
  .inner h.chain (fun he => absurd he hne) hosted h.tiles

/-- The stretch of a branch is that of its children. -/
theorem Run.branch_span {a b : Nat} {children : List Node} (h : Run holds a b children)
    (kind : Kind) (hne : children ≠ []) :
    (Node.branch kind children).span = ⟨a, b⟩ := by
  have hstart := h.chain.start_eq hne
  have hstop := h.chain.stop_eq
  simp only [Node.branch, Node.spanning, Node.span, hstart, hstop]

/-- A branch that spans from its first child to its last. -/
theorem Run.branch {a b : Nat} {children : List Node} (h : Run holds a b children) (kind : Kind)
    (hne : children ≠ []) : (Node.branch kind children).Tiles holds := by
  have hstart := h.chain.start_eq hne
  have hstop := h.chain.stop_eq
  unfold Node.branch
  simp only [hstart, hstop]
  exact Run.spanning h hne (fun hs => absurd hs (by simp))

/-- A branch over a run, or an empty one if there is nothing to cover. -/
theorem Run.branchAt {a b : Nat} {children : List Node} (h : Run holds a b children) (kind : Kind)
    (hempty : holds ⟨a, a⟩ "") :
    (Node.branchAt kind a children).Tiles holds ∧ (Node.branchAt kind a children).span = ⟨a, b⟩ := by
  cases children with
  | nil =>
      cases h.chain
      exact ⟨.inner rfl (fun _ => hempty) (fun hs => absurd hs (by simp))
        (fun _ hn => absurd hn List.not_mem_nil), rfl⟩
  | cons n ns =>
      have hne := List.cons_ne_nil n ns
      exact ⟨h.branch kind hne, h.branch_span kind hne⟩

/-! ## Nodes below a node -/

mutual

/-- Every node below a tree that tiles its text tiles its own part of it and does not reach outside the
tree. -/
theorem Node.outline_tiles (hj : Joinable holds) (depth : Nat) :
    ∀ n : Node, n.Tiles holds → ∀ m ∈ n.outline depth,
      m.2.Tiles holds ∧ n.start ≤ m.2.start ∧ m.2.stop ≤ n.stop
  | .leaf k t s, h, m, hm => by
      obtain rfl : m = (depth, .leaf k t s) := by simpa [Node.outline] using hm
      exact ⟨h, Nat.le_refl _, Nat.le_refl _⟩
  | .fault msg hs t s, h, m, hm => by
      obtain rfl : m = (depth, .fault msg hs t s) := by simpa [Node.outline] using hm
      exact ⟨h, Nat.le_refl _, Nat.le_refl _⟩
  | .inner k s host c b cs, h, m, hm => by
      rw [Node.outline, List.mem_cons] at hm
      rcases hm with rfl | hm
      · exact ⟨h, Nat.le_refl _, Nat.le_refl _⟩
      · cases h with
        | inner chain _ _ parts =>
            exact Node.outlineOf_tiles hj (depth + 1) cs ⟨chain, parts⟩ m hm

/-- Every node below a run tiles its own part and does not reach outside the run. -/
theorem Node.outlineOf_tiles (hj : Joinable holds) (depth : Nat) {a b : Nat} :
    ∀ ns : List Node, Run holds a b ns →
      ∀ m ∈ Node.outlineOf depth ns, m.2.Tiles holds ∧ a ≤ m.2.start ∧ m.2.stop ≤ b
  | [], _, m, hm => by simp [Node.outlineOf] at hm
  | n :: ns, h, m, hm => by
      obtain ⟨rfl, hn, htail⟩ := h.of_cons
      rw [Node.outlineOf, List.mem_append] at hm
      rcases hm with hm | hm
      · obtain ⟨htiles, hstart, hstop⟩ := Node.outline_tiles hj depth n hn m hm
        exact ⟨htiles, hstart, Nat.le_trans hstop (htail.le hj)⟩
      · obtain ⟨htiles, hstart, hstop⟩ := Node.outlineOf_tiles hj depth ns htail m hm
        exact ⟨htiles, Nat.le_trans (hn.le hj) hstart, hstop⟩

end

/-- The tree that a node hosts covers just what the node covers. -/
theorem Node.Tiles.hosted_root {n : Node} (h : n.Tiles holds) (hhost : n.host?.isSome) :
    ∃ root, n.children = [root] ∧ root.span = n.span := by
  cases h with
  | leaf text_eq => exact absurd hhost Bool.false_ne_true
  | fault text_eq => exact absurd hhost Bool.false_ne_true
  | inner chain _ hosted _ =>
      obtain ⟨root, hroot⟩ := List.length_eq_one_iff.mp (hosted hhost)
      rw [hroot] at chain
      obtain ⟨hstart, hstop⟩ := chain
      exact ⟨root, hroot, Span.mk.injEq .. ▸ ⟨hstart, hstop⟩⟩

end ComponentMarkup.Tree
