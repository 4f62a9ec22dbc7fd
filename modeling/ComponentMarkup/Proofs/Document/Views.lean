import ComponentMarkup.Document.Grammar
import ComponentMarkup.Document.View
import ComponentMarkup.Proofs.Tree.Within

/-!
# Nodes of views

A view of a node names nodes further down in the tree and never makes up any.  Where a view names a node that holds
script, it is one whose text belongs to the grammar of scripts.

* `View.Within`, `view?_within` — the nodes that a view names are nodes of the tree;
* `Command.Placed`, `view?_placed` — commands stand where nodes of the tree do.
-/

namespace ComponentMarkup.Document

open ComponentMarkup.Text ComponentMarkup.Tree

/-- A node whose text belongs to the grammar of scripts. -/
def HoldsScript (n : Node) : Prop :=
  ∃ entry, choice? n.kind = some ⟨"script", entry⟩

variable {root n : Node}

/-- A node of a tree that holds script. -/
def IsScriptOf (root n : Node) : Prop :=
  Node.Within root n ∧ HoldsScript n

/-- The nodes that a command names are nodes of a tree. -/
structure Command.Within (root : Node) (c : Command) : Prop where
  name : ∀ expr, c.name = .dynamic (some expr) → IsScriptOf root expr
  properties : ∀ host, c.properties = some host → IsScriptOf root host
  contentBlocks : ∀ block ∈ c.contentBlocks, Node.Within root block
  lineContent : ∀ line, c.lineContent = some line → Node.Within root line
  hole : ∀ hole, c.hole = some hole → Node.Within root hole
  body : ∀ body, c.body = some body → Node.Within root body

/-- The nodes that a view names are nodes of a tree. -/
def View.Within (root : Node) : View → Prop
  | .sequence nodes | .contentBlock nodes _ | .heading _ nodes | .list _ _ nodes | .listItem _ nodes |
      .quotation nodes | .link _ _ nodes | .tableRow nodes | .math _ nodes | .delimited nodes =>
    ∀ n ∈ nodes, Node.Within root n
  | .command c => c.Within root
  | .attributeLine _ value => ∀ host, value = some host → IsScriptOf root host
  | .fencedCode _ _ => True
  | .table header rows _ => (∀ n ∈ header.toList ++ rows, Node.Within root n)
  | .script body => ∀ host, body = some host → IsScriptOf root host

theorem IsScriptOf.find? {k : MarkupKind} {entry : String} {host : Node} (h : Node.Within root n)
    (hk : choice? (.markup k) = some ⟨"script", entry⟩) (hhost : n.child? k = some host) : IsScriptOf root host := by
  obtain ⟨hmem, hkind⟩ := Node.find?_spec hhost
  exact ⟨.child h hmem, entry, by rw [hkind]; exact hk⟩

theorem commandOf_within (kind : MarkupKind) (h : Node.Within root n) : (commandOf kind n).Within root where
  name := by
    intro expr hname
    have hname : commandName n = .dynamic (some expr) := hname
    unfold commandName at hname
    split at hname
    · split at hname <;> simp at hname
    · split at hname
      · rename_i name hdynamic
        have hexpr : name.child? .nameExpr = some expr := by simpa using hname
        exact .find? (h.find? hdynamic) rfl hexpr
      · simp at hname
  properties := by
    intro host hhost
    obtain ⟨list, hlist, hhost⟩ := Option.bind_eq_some_iff.mp hhost
    exact .find? (h.find? hlist) rfl hhost
  contentBlocks := fun block hblock => h.child (List.mem_filter.mp hblock).1
  lineContent := fun line hline => h.find? hline
  hole := fun hole hhole => h.find? hhole
  body := fun body hbody => h.find? hbody

/-- Nodes picked from the children of a node of a tree. -/
theorem within_picked {nodes : List Node} (h : Node.Within root n) (hsub : nodes ⊆ n.children) :
    ∀ m ∈ nodes, Node.Within root m :=
  fun _ hm => h.child (hsub hm)

theorem significant_subset (n : Node) : significant n ⊆ n.children :=
  List.filter_sublist.subset

theorem without_subset (kinds : List MarkupKind) (n : Node) : without kinds n ⊆ n.children :=
  List.filter_sublist.subset

theorem headingContents_subset (n : Node) : headingContents n ⊆ n.children := by
  intro m hm
  exact (List.dropWhile_suffix _).subset (List.mem_of_mem_drop (List.mem_filter.mp hm).1)

theorem linkContents_subset (n : Node) : linkContents n ⊆ n.children := by
  intro m hm
  exact List.mem_of_mem_drop ((List.takeWhile_prefix _).subset hm)

theorem itemBlocks_subset (n : Node) : itemBlocks n ⊆ n.children := by
  intro m hm
  exact significant_subset n (List.mem_filter.mp hm).1

/-- **The nodes that a view names are nodes of the tree.** -/
theorem view?_within {v : View} (h : Node.Within root n) (hv : view? n = some v) : v.Within root := by
  obtain ⟨kind, -, hv⟩ := Option.bind_eq_some_iff.mp hv
  have hmath : ∀ m ∈ ((n.child? .mathContent).map Node.children).getD [], Node.Within root m := by
    intro m hm
    cases hcontent : n.child? .mathContent with
    | none =>
        rw [hcontent] at hm
        cases hm
    | some content =>
        rw [hcontent] at hm
        exact (h.find? hcontent).child hm
  unfold viewOf? at hv
  split at hv
  all_goals cases hv
  all_goals first
    | exact commandOf_within _ h
    | exact hmath
    | exact within_picked h (significant_subset n)
    | exact within_picked h (without_subset _ n)
    | exact within_picked h (List.filter_sublist.subset)
    | exact within_picked h (headingContents_subset n)
    | exact within_picked h (linkContents_subset n)
    | exact within_picked h (itemBlocks_subset n)
    | exact fun host hhost => .find? h rfl hhost
    | trivial
    | skip
  -- the header and the rows of a table
  intro m hm
  rcases List.mem_append.mp hm with hm | hm
  · exact h.find? (Option.mem_toList.mp hm)
  · exact h.child (List.mem_filter.mp hm).1

/-- A command of a tree: it names nodes of the tree and stands where one of them does. -/
structure Command.Placed (root : Node) (c : Command) : Prop where
  within : c.Within root
  node : ∃ n, Node.Within root n ∧ n.span = c.span

/-- The command that a node of a tree is viewed as. -/
theorem view?_placed {c : Command} (h : Node.Within root n) (hv : view? n = some (.command c)) : c.Placed root := by
  refine ⟨view?_within h hv, n, h, ?_⟩
  obtain ⟨kind, -, hkind⟩ := Option.bind_eq_some_iff.mp hv
  unfold viewOf? at hkind
  split at hkind
  all_goals
    cases hkind
    try rfl

/-- The only paragraph of a sequence is one of its nodes. -/
theorem soleParagraph?_mem {nodes : List Node} {paragraph : Node} (h : soleParagraph? nodes = some paragraph) :
    paragraph ∈ nodes := by
  unfold soleParagraph? at h
  split at h
  · rename_i m hfilter
    split at h
    · obtain rfl := Option.some.inj h
      exact (List.mem_filter.mp (hfilter ▸ List.mem_singleton.mpr rfl)).1
    · exact absurd h (Option.some_ne_none _).symm
  · exact absurd h (Option.some_ne_none _).symm

end ComponentMarkup.Document
