import ComponentMarkup.Proofs.Markup.ReadingSteps
import ComponentMarkup.Proofs.Tree.Within

/-!
# The nodes of a region, however deep

A region holds the regions inside its lines.  Every node that stands in what a region is read as was made by the rules
in one of the regions that it holds, or is a detail of such a node: a mark around it, or a part of the head of a
command.

* `Reading.Holds` — the regions that a region holds, each with its nodes;
* `Detail` — what stands in a node as the rules make it, besides the nodes that they made before;
* `Made.placed` — the nodes of a region are made by the rules, or are details;
* `Run.leavesOf` — the leaves of nodes that follow each other do so, too.
-/

namespace ComponentMarkup.Tree

open ComponentMarkup.Text

variable {holds : Span → String → Prop} {root n : Node} {p : Nat}

/-! ## Leaves -/

theorem Node.mem_leavesOf {ns : List Node} : n ∈ Node.leavesOf ns ↔ ∃ root ∈ ns, n ∈ root.leaves := by
  rw [Node.leavesOf_eq, List.mem_flatMap]

mutual

/-- The leaves of a tree are nodes of it, without children. -/
theorem Node.within_of_mem_leaves : ∀ root : Node, n ∈ root.leaves → root.Within n ∧ n.children = []
  | .leaf _ _ _, h => by
      obtain rfl := List.mem_singleton.mp h
      exact ⟨.root, rfl⟩
  | .fault _ _ _ _, h => by
      obtain rfl := List.mem_singleton.mp h
      exact ⟨.root, rfl⟩
  | .inner _ _ _ _ _ cs, h => by
      obtain ⟨⟨child, hchild, hwithin⟩, hnone⟩ := Node.within_of_mem_leavesOf cs h
      exact ⟨Node.Within.trans (.child .root hchild) hwithin, hnone⟩

theorem Node.within_of_mem_leavesOf : ∀ ns : List Node, n ∈ Node.leavesOf ns →
    (∃ root ∈ ns, root.Within n) ∧ n.children = []
  | [], h => absurd h List.not_mem_nil
  | c :: cs, h => by
      rcases List.mem_append.mp h with h | h
      · obtain ⟨hwithin, hnone⟩ := Node.within_of_mem_leaves c h
        exact ⟨⟨c, List.mem_cons_self, hwithin⟩, hnone⟩
      · obtain ⟨⟨root, hroot, hwithin⟩, hnone⟩ := Node.within_of_mem_leavesOf cs h
        exact ⟨⟨root, List.mem_cons_of_mem c hroot, hwithin⟩, hnone⟩

end

/-- The leaves of a node of a tree are leaves of the tree. -/
theorem Node.Within.leaves (h : root.Within n) : ∀ leaf ∈ n.leaves, leaf ∈ root.leaves := by
  induction h with
  | root => exact fun _ hleaf => hleaf
  | @child m k _ mem ih =>
      intro leaf hleaf
      refine ih leaf ?_
      cases m with
      | inner => exact Node.mem_leavesOf.mpr ⟨k, mem, hleaf⟩
      | leaf => exact absurd mem List.not_mem_nil
      | fault => exact absurd mem List.not_mem_nil

theorem Chain.leavesOf {a b : Nat} {ns : List Node} (h : Chain a b ns)
    (hns : ∀ n ∈ ns, Run holds n.start n.stop n.leaves) : Run holds a b (Node.leavesOf ns) := by
  induction ns generalizing a with
  | nil => exact ⟨h, fun _ hn => absurd hn List.not_mem_nil⟩
  | cons n ns ih =>
      obtain ⟨rfl, hrest⟩ := h
      exact (hns n List.mem_cons_self).append (ih hrest fun m hm => hns m (List.mem_cons_of_mem n hm))

/-- The leaves of a tree follow each other from its start to its end. -/
theorem Node.Tiles.leaves (h : n.Tiles holds) : Run holds n.start n.stop n.leaves := by
  induction h with
  | leaf text_eq => exact .single (.leaf text_eq)
  | fault text_eq => exact .single (.fault text_eq)
  | inner chain _ _ _ ih => exact chain.leavesOf ih

/-- **The leaves of a run are a run.** -/
theorem Run.leavesOf {a b : Nat} {ns : List Node} (h : Run holds a b ns) : Run holds a b (Node.leavesOf ns) :=
  h.chain.leavesOf fun n hn => (h.tiles n hn).leaves

/-- The children of a node follow each other from its start to its end. -/
theorem Node.Tiles.run (h : n.Tiles holds) (hne : n.children ≠ []) : Run holds n.start n.stop n.children := by
  cases h with
  | inner chain _ _ parts => exact ⟨chain, parts⟩
  | leaf => exact absurd rfl hne
  | fault => exact absurd rfl hne

theorem Node.Within.tiles (h : root.Within n) (hroot : root.Tiles holds) : n.Tiles holds := by
  obtain ⟨_, hdescent⟩ := h.descent
  exact hdescent.tiles hroot

end ComponentMarkup.Tree

namespace ComponentMarkup.Tree

/-- Kinds of the nodes of heads. -/
def MarkupKind.isHead : MarkupKind → Bool
  | .sigil | .commandName | .dynamicName | .nameExpr | .leftParen | .rightParen | .attributeList | .inlineAttributes
  | .leftBracket | .rightBracket => true
  | _ => false

/-- Kinds of the nodes that stand in nodes as the rules make them, besides those that they made before. -/
def MarkupKind.isDetail (kind : MarkupKind) : Bool :=
  kind.isHead || kind == .emphMark || kind == .mathDelim || kind == .mathContent

end ComponentMarkup.Tree

namespace ComponentMarkup.Markup

open ComponentMarkup.Text ComponentMarkup.Tree

variable {deep : Prop} {r r' : Reading} {nodes nodes' : List Node} {n m : Node} {src : Source}

/-! ## Regions inside of regions -/

/-- A region that a region holds, and its nodes: the region itself, or one inside a line of such a region. -/
inductive Reading.Holds (deep : Prop) (r : Reading) (nodes : List Node) : Reading → List Node → Prop where
  | self : Holds deep r nodes r nodes
  | line {r' : Reading} {nodes' : List Node} {root : Node} {segment inner : Span} {children : List Node}
      (holds : Holds deep r nodes r' nodes') (full : r'.mode = .full) (mem : segment ∈ r'.segments)
      (nested : Nested r'.source segment inner) (root_mem : root ∈ nodes')
      (within : root.Within (.markup .lineContent children))
      (read : deep ∨ children = (r'.inside inner .full).content.value) :
      Holds deep r nodes (r'.inside inner .full) children
  | formula {r' : Reading} {nodes' : List Node} {root : Node} {segment : Span} {a b : Nat} {children : List Node}
      (holds : Holds deep r nodes r' nodes') (full : r'.mode = .full) (mem : segment ∈ r'.segments)
      (opening : WholeRun r'.source segment '$' a (a + 1)) (closing : r'.source.chars[b]? = some '$' ∧ b < segment.stop)
      (lt : a + 1 < b) (root_mem : root ∈ nodes')
      (within : root.Within (.markup .mathInline [leafOf r'.source .mathDelim a (a + 1), .markup .mathContent children,
        leafOf r'.source .mathDelim b (b + 1)])) :
      Holds deep r nodes (r'.inside ⟨a + 1, b⟩ .template) children

namespace Reading.Holds

theorem source (h : r.Holds deep nodes r' nodes') : r'.source = r.source := by
  induction h with
  | self => rfl
  | line _ _ _ _ _ _ _ ih => exact ih
  | formula _ _ _ _ _ _ _ _ ih => exact ih

/-- The nodes of the regions that a region holds stand in its own nodes. -/
theorem within (h : r.Holds deep nodes r' nodes') (hm : m ∈ nodes') : ∃ root ∈ nodes, root.Within m := by
  induction h generalizing m with
  | self => exact ⟨m, hm, .root⟩
  | line _ _ _ _ root_mem within _ ih =>
      obtain ⟨root, hroot, habove⟩ := ih root_mem
      exact ⟨root, hroot, habove.trans (within.trans (.child .root hm))⟩
  | formula _ _ _ _ _ _ root_mem within ih =>
      obtain ⟨root, hroot, habove⟩ := ih root_mem
      have hcontent := Node.Within.child within (List.mem_cons_of_mem _ List.mem_cons_self)
      exact ⟨root, hroot, habove.trans (hcontent.trans (.child .root hm))⟩

/-- What holds of a stretch in a region with all rules holds of one of the region that holds it, if it reaches outwards
line by line. -/
theorem outwards {P : Span → Prop} (hout : ∀ segment inner, Nested r.source segment inner → P inner → P segment)
    (h : r.Holds deep nodes r' nodes') (hfull : r'.mode = .full) (hP : ∃ segment ∈ r'.segments, P segment) :
    ∃ segment ∈ r.segments, P segment := by
  induction h with
  | self => exact hP
  | line holds full mem nested _ _ _ ih =>
      obtain ⟨segment, hmem, hP⟩ := hP
      obtain rfl := List.mem_singleton.mp hmem
      exact ih full ⟨_, mem, hout _ _ (holds.source ▸ nested) hP⟩
  | formula => exact absurd hfull (by simp [inside])

/-- Nothing stands inside of a region without emphasis and commands but the region itself. -/
theorem template (h : r.Holds deep nodes r' nodes') (hmode : r.mode = .template) : r' = r := by
  induction h with
  | self => rfl
  | line _ full _ _ _ _ _ ih => exact absurd ((ih ▸ full).symm.trans hmode) (by decide)
  | formula _ full _ _ _ _ _ _ ih => exact absurd ((ih ▸ full).symm.trans hmode) (by decide)

end Reading.Holds

/-! ## Heads -/

/-- A leaf has no nodes but itself. -/
theorem throughout_leafOf {P : Node → Prop} {src : Source} {kind : MarkupKind} {a b : Nat}
    (h : P (leafOf src kind a b)) : (leafOf src kind a b).Throughout P :=
  .intro h fun _ hc => absurd hc List.not_mem_nil

/-- A node of a head: its sigil, a name or attributes, a bracket around them, or what stands in brackets. -/
inductive HeadNode (src : Source) (head : Head) : Node → Prop where
  | sigil : HeadNode src head (leafOf src .sigil head.sigil.start head.sigil.stop)
  | held {kind : MarkupKind} {a b : Nat} (kinds : kind = .commandName ∨ kind = .nameExpr ∨ kind = .inlineAttributes) :
      HeadNode src head (leafOf src kind a b)
  | opening {kind : MarkupKind} {s : Span} (kinds : kind = .leftParen ∨ kind = .leftBracket)
      (stretch : head.name = some (.computed s) ∨ head.attributes = some s) :
      HeadNode src head (leafOf src kind s.start (s.start + 1))
  | closing {kind : MarkupKind} {s : Span} (kinds : kind = .rightParen ∨ kind = .rightBracket)
      (stretch : head.name = some (.computed s) ∨ head.attributes = some s) :
      HeadNode src head (leafOf src kind (s.stop - 1) s.stop)
  | group {kind : MarkupKind} {children : List Node} (kinds : kind = .dynamicName ∨ kind = .attributeList)
      (parts : ∀ n ∈ children, HeadNode src head n) : HeadNode src head (.markup kind children)

namespace HeadNode

variable {head : Head}

/-- The kinds of the nodes of heads. -/
theorem isHead (h : HeadNode src head n) : ∃ kind, n.kind = .markup kind ∧ kind.isHead = true := by
  cases h with
  | sigil => exact ⟨.sigil, rfl, rfl⟩
  | @held kind _ _ kinds => exact ⟨kind, rfl, by rcases kinds with rfl | rfl | rfl <;> rfl⟩
  | @opening kind _ kinds => exact ⟨kind, rfl, by rcases kinds with rfl | rfl <;> rfl⟩
  | @closing kind _ kinds => exact ⟨kind, rfl, by rcases kinds with rfl | rfl <;> rfl⟩
  | @group kind _ kinds => exact ⟨kind, rfl, by rcases kinds with rfl | rfl <;> rfl⟩

/-- What stands in brackets, and the brackets. -/
theorem of_bracketed {kind left inside right : MarkupKind} {s : Span}
    (hkind : kind = .dynamicName ∨ kind = .attributeList)
    (hleft : left = .leftParen ∨ left = .leftBracket) (hinside : inside = .nameExpr ∨ inside = .inlineAttributes)
    (hright : right = .rightParen ∨ right = .rightBracket)
    (stretch : head.name = some (.computed s) ∨ head.attributes = some s) :
    (Head.bracketed src kind left inside right s).Throughout (HeadNode src head) := by
  have hparts : ∀ n ∈ leafOf src left s.start (s.start + 1) ::
      (if s.start + 1 < s.stop - 1 then [leafOf src inside (s.start + 1) (s.stop - 1)] else []) ++
        [leafOf src right (s.stop - 1) s.stop], n.Throughout (HeadNode src head) := by
    intro n hn
    rcases List.mem_append.mp hn with hn | hn
    · rcases List.mem_cons.mp hn with rfl | hn
      · exact throughout_leafOf (.opening hleft stretch)
      · split at hn
        · obtain rfl := List.mem_singleton.mp hn
          exact throughout_leafOf (.held (.inr hinside))
        · exact absurd hn List.not_mem_nil
    · obtain rfl := List.mem_singleton.mp hn
      exact throughout_leafOf (.closing hright stretch)
  exact .intro (.group hkind fun n hn => (hparts n hn).here) hparts

/-- The nodes of a head are its parts. -/
theorem of_mem_nodes (h : n ∈ head.nodes src) : n.Throughout (HeadNode src head) := by
  unfold Head.nodes at h
  rcases List.mem_append.mp h with h | h
  · rcases List.mem_cons.mp h with rfl | h
    · exact throughout_leafOf .sigil
    · split at h
      · obtain rfl := List.mem_singleton.mp h
        exact throughout_leafOf (.held (.inl rfl))
      · rename_i s hname
        obtain rfl := List.mem_singleton.mp h
        exact of_bracketed (.inl rfl) (.inl rfl) (.inl rfl) (.inl rfl) (.inl hname)
      · exact absurd h List.not_mem_nil
  · split at h
    · rename_i s hattributes
      obtain rfl := List.mem_singleton.mp h
      exact of_bracketed (.inr rfl) (.inr rfl) (.inr rfl) (.inr rfl) (.inr hattributes)
    · exact absurd h List.not_mem_nil

end HeadNode

/-! ## Details -/

/-- What stands in a node as the rules make it, besides the nodes that they made before. -/
inductive Detail (deep : Prop) : Reading → Node → Prop where
  | mark {r : Reading} {kind : MarkupKind} {segment : Span} {mark : Char} {a width : Nat} (full : r.mode = .full)
      (kinds : IsMarked kind mark width) (mem : segment ∈ r.segments)
      (flanks : Flanks r.source segment mark a (a + width)) : Detail deep r (leafOf r.source .emphMark a (a + width))
  | dollar {r : Reading} {a : Nat} (char : r.source.chars[a]? = some '$') :
      Detail deep r (leafOf r.source .mathDelim a (a + 1))
  | content {r : Reading} {inner : Span} {children : List Node}
      (parts : ∀ n ∈ children, Made deep (r.inside inner .template) n) : Detail deep r (.markup .mathContent children)
  | head {r : Reading} {place width : Nat} {head : Head} {root n : Node} (command : CommandAt r place width head)
      (mem : root ∈ head.nodes r.source) (within : root.Within n) : Detail deep r n

/-- The kinds of details. -/
theorem Detail.isDetail (h : Detail deep r n) : ∃ kind, n.kind = .markup kind ∧ kind.isDetail = true := by
  cases h with
  | mark => exact ⟨.emphMark, rfl, rfl⟩
  | dollar => exact ⟨.mathDelim, rfl, rfl⟩
  | content => exact ⟨.mathContent, rfl, rfl⟩
  | head _ mem within =>
      obtain ⟨kind, hkind, hhead⟩ := ((HeadNode.of_mem_nodes mem) n within).isHead
      exact ⟨kind, hkind, by simp [MarkupKind.isDetail, hhead]⟩

/-- A node that stands in the nodes of a region: made by the rules in one of the regions that the region holds, or a
detail of such a node. -/
def Placed (deep : Prop) (r : Reading) (nodes : List Node) (n : Node) : Prop :=
  ∃ r' nodes' root, r.Holds deep nodes r' nodes' ∧ root ∈ nodes' ∧ root.Within n ∧ (Made deep r' n ∨ Detail deep r' n)

namespace Placed

variable {root : Node}

theorem of_made (holds : r.Holds deep nodes r' nodes') (hroot : root ∈ nodes') (hn : root.Within n)
    (hmade : Made deep r' n) : Placed deep r nodes n :=
  ⟨r', nodes', root, holds, hroot, hn, .inl hmade⟩

theorem of_detail (holds : r.Holds deep nodes r' nodes') (hroot : root ∈ nodes') (hn : root.Within n)
    (hdetail : Detail deep r' n) : Placed deep r nodes n :=
  ⟨r', nodes', root, holds, hroot, hn, .inr hdetail⟩

/-- What is no detail is made by the rules. -/
theorem made (h : Placed deep r nodes n) {kind : MarkupKind} (hkind : n.kind = .markup kind)
    (hno : kind.isDetail = false) : ∃ r' nodes' root, r.Holds deep nodes r' nodes' ∧ root ∈ nodes' ∧ root.Within n ∧
      Made deep r' n := by
  obtain ⟨r', nodes', root, holds, hroot, hn, hmade | hdetail⟩ := h
  · exact ⟨r', nodes', root, holds, hroot, hn, hmade⟩
  · obtain ⟨kind', hkind', hdetail⟩ := hdetail.isDetail
    obtain rfl := Kind.markup.inj (hkind.symm.trans hkind')
    exact absurd (hno.symm.trans hdetail) Bool.false_ne_true

end Placed

/-- **What stands in a node as the rules make it is made by the rules, or is a detail.** -/
theorem Made.throughout_placed (h : Made deep r' n) {root : Node} (holds : r.Holds deep nodes r' nodes')
    (hroot : root ∈ nodes') (hn : root.Within n) : n.Throughout (Placed deep r nodes) := by
  have hself : Placed deep r nodes n := .of_made holds hroot hn h
  induction h generalizing nodes' root with
  | text => exact throughout_leafOf hself
  | brace => exact throughout_leafOf hself
  | run => exact throughout_leafOf hself
  | free => exact throughout_leafOf hself
  | sign => exact throughout_leafOf hself
  | newline => exact throughout_leafOf hself
  | wrapper _ parts ih =>
      refine .intro hself fun c hc => ?_
      have hwithin := Node.Within.child hn hc
      exact ih c hc holds hroot hwithin (.of_made holds hroot hwithin (parts c hc))
  | marked full kinds opening_mem opens closing_mem closes parts ih =>
      refine .intro hself fun c hc => ?_
      have hwithin := Node.Within.child hn hc
      rcases List.mem_append.mp hc with hc | hc
      · rcases List.mem_cons.mp hc with rfl | hc
        · exact throughout_leafOf (.of_detail holds hroot hwithin (.mark full kinds opening_mem opens.toFlanks))
        · exact ih c hc holds hroot hwithin (.of_made holds hroot hwithin (parts c hc))
      · obtain rfl := List.mem_singleton.mp hc
        exact throughout_leafOf (.of_detail holds hroot hwithin (.mark full kinds closing_mem closes.toFlanks))
  | command kinds command parts ih =>
      refine .intro hself fun c hc => ?_
      have hwithin := Node.Within.child hn hc
      rcases List.mem_append.mp hc with hc | hc
      · exact fun k hk => .of_detail holds hroot (hwithin.trans hk) (.head command hc hk)
      · exact ih c hc holds hroot hwithin (.of_made holds hroot hwithin (parts c hc))
  | line full mem nested parts read ih =>
      have holds' := holds.line full mem nested hroot hn read
      refine .intro hself fun c hc => ?_
      exact ih c hc holds' hc .root (.of_made holds' hc .root (parts c hc))
  | formula full mem opening closing lt parts ih =>
      refine .intro hself fun c hc => ?_
      have hwithin := Node.Within.child hn hc
      rcases List.mem_cons.mp hc with rfl | hc
      · refine throughout_leafOf (.of_detail holds hroot hwithin (.dollar ?_))
        exact opening.chars _ (Nat.le_refl _) (Nat.lt_succ_self _)
      rcases List.mem_cons.mp hc with rfl | hc
      · have holds' := holds.formula full mem opening closing lt hroot hn
        refine .intro (.of_detail holds hroot hwithin (.content parts)) fun c hc => ?_
        exact ih c hc holds' hc .root (.of_made holds' hc .root (parts c hc))
      · obtain rfl := List.mem_singleton.mp hc
        exact throughout_leafOf (.of_detail holds hroot hwithin (.dollar closing.1))

/-- **The nodes of a region are made by the rules, or are details**, however deep they stand. -/
theorem Made.placed (h : Each (Made deep r) nodes) {root : Node} (hroot : root ∈ nodes) (hn : root.Within n) :
    Placed deep r nodes n :=
  (h root hroot).throughout_placed .self hroot .root n hn

end ComponentMarkup.Markup
