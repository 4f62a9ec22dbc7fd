import ComponentMarkup.Proofs.Tree.Places

/-!
# The nodes of a tree

* `Node.Within` — the nodes of a tree, `Node.Within.outline` — which are those of its outline;
* `Node.Throughout` — what holds of all nodes of a tree;
* `Node.Descent` — a node of a tree and the nodes that it stands in;
* `Run.covered`, `Run.apart` — every place of a run lies in one of its nodes, and no two of them overlap.
-/

namespace ComponentMarkup.Tree.Node

/-- A node of a tree: the tree itself, or a child of one of its nodes. -/
inductive Within (root : Node) : Node → Prop where
  | root : Within root root
  | child {n m : Node} (parent : Within root n) (mem : m ∈ n.children) : Within root m

variable {root n m : Node}

theorem Within.trans (h : Within root n) (h' : Within n m) : Within root m := by
  induction h' with
  | root => exact h
  | child _ mem ih => exact .child ih mem

theorem mem_outline_self (depth : Nat) (n : Node) : (depth, n) ∈ n.outline depth := by
  cases n <;> simp [outline]

mutual

/-- The children of a node of an outline stand in it too, one deeper. -/
theorem mem_outline_child (depth d : Nat) : ∀ root : Node, (d, n) ∈ root.outline depth → m ∈ n.children →
    (d + 1, m) ∈ root.outline depth
  | leaf k t s, h, hm => by
      obtain ⟨_, rfl⟩ := Prod.mk.inj (List.mem_singleton.mp h)
      exact absurd hm List.not_mem_nil
  | fault msg hs t s, h, hm => by
      obtain ⟨_, rfl⟩ := Prod.mk.inj (List.mem_singleton.mp h)
      exact absurd hm List.not_mem_nil
  | inner k s host c b cs, h, hm => by
      rw [outline, List.mem_cons] at h ⊢
      refine .inr ?_
      rcases h with heq | h
      · obtain ⟨rfl, rfl⟩ := Prod.mk.inj heq
        exact mem_outlineOf_self (d + 1) cs hm
      · exact mem_outlineOf_child (depth + 1) d cs h hm

theorem mem_outlineOf_child (depth d : Nat) : ∀ ns : List Node, (d, n) ∈ outlineOf depth ns → m ∈ n.children →
    (d + 1, m) ∈ outlineOf depth ns
  | [], h, _ => absurd h List.not_mem_nil
  | c :: cs, h, hm => by
      rw [outlineOf, List.mem_append] at h ⊢
      rcases h with h | h
      · exact .inl (mem_outline_child depth d c h hm)
      · exact .inr (mem_outlineOf_child depth d cs h hm)

theorem mem_outlineOf_self (depth : Nat) : ∀ ns : List Node, m ∈ ns → (depth, m) ∈ outlineOf depth ns
  | [], h => absurd h List.not_mem_nil
  | c :: cs, h => by
      rw [outlineOf, List.mem_append]
      rcases List.mem_cons.mp h with rfl | h
      · exact .inl (mem_outline_self depth m)
      · exact .inr (mem_outlineOf_self depth cs h)

end

/-- The nodes of a tree are those of its outline. -/
theorem Within.outline (h : Within root n) : ∃ depth, (depth, n) ∈ root.outline 0 := by
  induction h with
  | root => exact ⟨0, mem_outline_self 0 root⟩
  | child _ mem ih =>
      obtain ⟨depth, hdepth⟩ := ih
      exact ⟨depth + 1, mem_outline_child 0 depth root hdepth mem⟩

/-- A node found by its kind is a child of that kind. -/
theorem find?_spec {k : Kind} (h : n.find? k = some m) : m ∈ n.children ∧ m.kind = k := by
  have hkind := List.find?_some h
  exact ⟨List.mem_of_find?_eq_some h, beq_iff_eq.mp hkind⟩

theorem Within.find? {k : Kind} (h : Within root n) (hm : n.find? k = some m) : Within root m :=
  .child h (find?_spec hm).1

/-- The tree that a node hosts is a child of it. -/
theorem Within.hostedRoot? (h : Within root n) (hm : n.hostedRoot? = some m) : Within root m := by
  obtain ⟨choice, _, hhead⟩ := Option.bind_eq_some_iff.mp hm
  exact .child h (List.mem_of_head? hhead)

/-! ## What holds of all nodes -/

/-- Something that holds of all nodes of a tree. -/
def Throughout (P : Node → Prop) (root : Node) : Prop :=
  ∀ n, Within root n → P n

namespace Throughout

variable {P : Node → Prop}

/-- A node of a tree is its root or a node of a child. -/
theorem Within.cases_child (h : Within root n) : n = root ∨ ∃ c ∈ root.children, Within c n := by
  induction h with
  | root => exact .inl rfl
  | child _ mem ih =>
      rcases ih with rfl | ⟨c, hc, hn⟩
      · exact .inr ⟨_, mem, .root⟩
      · exact .inr ⟨c, hc, .child hn mem⟩

theorem intro (here : P root) (below : ∀ c ∈ root.children, c.Throughout P) : root.Throughout P := by
  intro n h
  rcases Within.cases_child h with rfl | ⟨c, hc, hn⟩
  · exact here
  · exact below c hc n hn

theorem here (h : root.Throughout P) : P root :=
  h root .root

theorem child (h : root.Throughout P) (hn : n ∈ root.children) : n.Throughout P :=
  fun m hm => h m (Within.trans (.child .root hn) hm)

theorem mono {Q : Node → Prop} (h : root.Throughout P) (himp : ∀ n, P n → Q n) : root.Throughout Q :=
  fun n hn => himp n (h n hn)

/-- What holds of a branch and throughout its children holds throughout it. -/
theorem branchAt {kind : Kind} {place : Nat} {children : List Node} (here : P (.branchAt kind place children))
    (below : ∀ c ∈ children, c.Throughout P) : (Node.branchAt kind place children).Throughout P := by
  refine intro here fun c hc => below c ?_
  cases children with
  | nil => exact hc
  | cons n ns => exact hc

/-- What does not depend on places holds throughout a tree whose places are moved. -/
theorem mapPlaces {f : Nat → Nat} (hmap : ∀ n, P n → P (n.mapPlaces f)) :
    ∀ {root : Node}, root.Throughout P → (root.mapPlaces f).Throughout P
  | leaf k t s, h => intro (hmap _ h.here) fun c hc => absurd hc List.not_mem_nil
  | fault m hs t s, h => intro (hmap _ h.here) fun c hc => absurd hc List.not_mem_nil
  | inner k s host n b cs, h => by
      refine intro (hmap _ h.here) fun c hc => ?_
      rw [Node.mapPlaces, Node.children, mapPlacesOf_eq, List.mem_map] at hc
      obtain ⟨d, hd, rfl⟩ := hc
      exact mapPlaces hmap (h.child hd)

end Throughout

end ComponentMarkup.Tree.Node

namespace ComponentMarkup.Tree

open ComponentMarkup.Text

/-! ## Nodes and what they stand in -/

/-- A node of a tree, and the nodes that it stands in, innermost first. -/
inductive Node.Descent (root : Node) : List Node → Node → Prop where
  | root : Descent root [] root
  | child {above : List Node} {n m : Node} (parent : Descent root above n) (mem : m ∈ n.children) :
      Descent root (n :: above) m

/-- A node of a tree stands in some of its nodes. -/
theorem Node.Within.descent {root n : Node} (h : Node.Within root n) : ∃ above, root.Descent above n := by
  induction h with
  | root => exact ⟨[], .root⟩
  | child _ mem ih =>
      obtain ⟨above, habove⟩ := ih
      exact ⟨_, .child habove mem⟩

/-- The nodes of a tree whose places are moved are nodes of the tree with their places moved. -/
theorem Node.Descent.of_mapPlaces {root n : Node} {above : List Node} {f : Nat → Nat}
    (h : (root.mapPlaces f).Descent above n) : ∃ old m, root.Descent old m ∧
      above = old.map (Node.mapPlaces f) ∧ n = m.mapPlaces f := by
  induction h with
  | root => exact ⟨[], root, .root, rfl, rfl⟩
  | @child above n m _ mem ih =>
      obtain ⟨old, k, hk, rfl, rfl⟩ := ih
      rw [Node.children_mapPlaces] at mem
      obtain ⟨c, hc, rfl⟩ := List.mem_map.mp mem
      exact ⟨k :: old, c, .child hk hc, rfl, rfl⟩

section

variable {holds : Span → String → Prop} {a b p : Nat} {ns : List Node} {n m : Node}

/-- The nodes of a tree that tiles its text tile theirs. -/
theorem Node.Descent.tiles {root : Node} {above : List Node} (h : root.Descent above n) (hroot : root.Tiles holds) :
    n.Tiles holds := by
  induction h with
  | root => exact hroot
  | child _ mem ih =>
      cases ih with
      | inner _ _ _ parts => exact parts _ mem
      | _ => exact absurd mem List.not_mem_nil

/-! ## Nodes of a run -/

/-- No node of a run starts before it. -/
theorem Run.le_start (hj : Joinable holds) (h : Run holds a b ns) (hn : n ∈ ns) : a ≤ n.start := by
  obtain ⟨before, after, rfl⟩ := List.append_of_mem hn
  obtain ⟨_, hbefore, hafter⟩ := h.split
  obtain ⟨rfl, _, _⟩ := hafter.of_cons
  exact hbefore.le hj

/-- Every place of a run lies in one of its nodes. -/
theorem Run.covered (h : Run holds a b ns) (ha : a ≤ p) (hb : p < b) : ∃ n ∈ ns, n.start ≤ p ∧ p < n.stop := by
  induction ns generalizing a with
  | nil => exact absurd (Nat.lt_of_lt_of_le hb (h.chain ▸ ha)) (Nat.lt_irrefl p)
  | cons n ns ih =>
      obtain ⟨rfl, _, hrest⟩ := h.of_cons
      by_cases hp : p < n.stop
      · exact ⟨n, List.mem_cons_self, ha, hp⟩
      · obtain ⟨m, hm, hin⟩ := ih hrest (Nat.le_of_not_lt hp)
        exact ⟨m, List.mem_cons_of_mem n hm, hin⟩

/-- Two trees of a run that differ do not overlap. -/
theorem Run.apart (hj : Joinable holds) (h : Run holds a b ns) (hn : n ∈ ns) (hm : m ∈ ns) (hne : m ≠ n) :
    (a ≤ m.start ∧ m.stop ≤ n.start ∧ n.stop ≤ b) ∨ (a ≤ n.start ∧ n.stop ≤ m.start ∧ m.stop ≤ b) := by
  obtain ⟨before, after, rfl⟩ := List.append_of_mem hn
  obtain ⟨c, hbefore, hrest⟩ := h.split
  obtain ⟨rfl, hnode, hafter⟩ := hrest.of_cons
  rcases List.mem_append.mp hm with hm | hm
  · obtain ⟨first, last, rfl⟩ := List.append_of_mem hm
    obtain ⟨d, hfirst, hlast⟩ := hbefore.split
    obtain ⟨rfl, _, hbetween⟩ := hlast.of_cons
    exact .inl ⟨hfirst.le hj, hbetween.le hj, hafter.le hj⟩
  · have hm : m ∈ after := (List.mem_cons.mp hm).resolve_left hne
    obtain ⟨first, last, rfl⟩ := List.append_of_mem hm
    obtain ⟨d, hfirst, hlast⟩ := hafter.split
    obtain ⟨rfl, _, hbetween⟩ := hlast.of_cons
    exact .inr ⟨hbefore.le hj, hfirst.le hj, hbetween.le hj⟩

end

end ComponentMarkup.Tree
