import ComponentMarkup.Proofs.Markup.ReadingTrees

/-!
# How the nodes of a document are put together

The kind of a node says what kinds of nodes may stand in it, and for some kinds also in which order.  Quiet kinds are
for what an author writes around content: marks, gaps, comments, attributes, and the heads of commands.  They may stand
nearly everywhere, so most arrangements are about the other children only.

The arrangement of a node depends on the kinds of its children alone.  So it does not matter where the tree stands, or
what else its nodes hold.

* `Kind.isQuiet`, `Kind.isPhrase`, `Kind.isBlock` — sorts of kinds;
* `MarkupKind.Arranges` — the children of a node of a kind;
* `Composed` — a tree all of whose nodes are arranged;
* `Sorted` — a composed tree of a kind of some sort.
-/

namespace ComponentMarkup.Tree

/-! ## Sorts of kinds -/

namespace Kind

/-- Kinds of nodes that carry no content. -/
def isQuiet : Kind → Bool
  | .markup .space | .markup .quoteMarker | .markup .lineComment | .markup .commentBlock | .markup .headingMarker
  | .markup .listMarker | .markup .taskMarker | .markup .tableDelimiter | .markup .tablePipe | .markup .codeFence
  | .markup .codeInfo | .markup .scriptMark | .markup .scriptFence | .markup .scriptBody | .markup .attributeMark
  | .markup .attributeKey | .markup .attributeValue | .markup .sigil | .markup .commandName | .markup .dynamicName
  | .markup .nameExpr | .markup .attributeList | .markup .inlineAttributes | .markup .verbatimDelim
  | .markup .mathDelim | .markup .emphMark | .markup .codeMark | .markup .linkMark | .markup .url | .markup .colon
  | .markup .leftBrace | .markup .rightBrace | .markup .leftBracket | .markup .rightBracket | .markup .leftParen
  | .markup .rightParen => true
  | _ => false

/-- Kinds of nodes that the grammar of scripts makes. -/
def isForeign : Kind → Bool
  | .script _ | .fault => true
  | _ => false

/-- Kinds of nodes that inline content is made of. -/
def isPhrase : Kind → Bool
  | .markup .text | .markup .escape | .markup .newline | .markup .special | .markup .lineComment | .markup .emph
  | .markup .strong | .markup .strikethrough | .markup .inlineCode | .markup .link | .markup .image
  | .markup .autolink | .markup .mathInline | .markup .inlineComponent | .markup .interpolation
  | .markup .reference => true
  | _ => false

/-- Kinds of blocks. -/
def isBlock : Kind → Bool
  | .markup .paragraph | .markup .heading | .markup .bulletList | .markup .orderedList | .markup .blockquote
  | .markup .table | .markup .fencedCode | .markup .mathBlock | .markup .blockComponent | .markup .script
  | .markup .attributeLine | .markup .commentBlock => true
  | _ => false

end Kind

/-- The kinds among some that are not quiet. -/
def voiced (kinds : List Kind) : List Kind :=
  kinds.filter fun kind => !kind.isQuiet

section

variable {kinds others : List Kind} {kind : Kind}

theorem voiced_append (kinds others : List Kind) : voiced (kinds ++ others) = voiced kinds ++ voiced others :=
  List.filter_append kinds others

theorem voiced_cons_quiet (h : kind.isQuiet = true) : voiced (kind :: kinds) = voiced kinds :=
  List.filter_cons_of_neg (by rw [h]; exact Bool.false_ne_true)

theorem voiced_cons (h : kind.isQuiet = false) : voiced (kind :: kinds) = kind :: voiced kinds :=
  List.filter_cons_of_pos (by rw [h]; rfl)

theorem voiced_quiet (h : ∀ kind ∈ kinds, kind.isQuiet = true) : voiced kinds = [] :=
  List.filter_eq_nil_iff.mpr fun kind hkind => by
    rw [h kind hkind]
    exact Bool.false_ne_true

end

/-! ## Arrangements -/

/-- The kinds of what follows the head of a component: contents in braces, a verbatim body, a body of several lines in
braces, or content on the line and an indented body. -/
inductive IsBody : List Kind → Prop
  | blocks {kinds : List Kind} (kinds_eq : ∀ kind ∈ kinds, kind = .markup .contentBlock) : IsBody kinds
  | verbatim : IsBody [.markup .verbatim]
  | hole : IsBody [.markup .markupHole]
  | composite (line body : Bool) : IsBody
      ((if line then [.markup .lineContent] else []) ++ if body then [.markup .blockBody] else [])

/-- The kinds of the children of a node. -/
def MarkupKind.Arranges (kind : MarkupKind) (kinds : List Kind) : Prop :=
  match kind with
  | .document | .blockBody | .blockquote | .listItem => ∀ k ∈ voiced kinds, k.isBlock = true
  | .bulletList | .orderedList => ∀ k ∈ voiced kinds, k = .markup .listItem
  | .table => ∃ rows, voiced kinds = .markup .tableHeader :: rows ∧ ∀ k ∈ rows, k = .markup .tableRow
  | .tableHeader | .tableRow => ∀ k ∈ voiced kinds, k = .markup .tableCell
  | .inline | .paragraph | .tableCell | .lineContent | .mathContent | .emph | .strong | .strikethrough =>
    ∀ k ∈ voiced kinds, k.isPhrase = true
  | .heading => kinds.head? = some (.markup .headingMarker) ∧ ∀ k ∈ voiced kinds, k.isPhrase = true
  | .contentBlock => ∀ k ∈ kinds, k.isPhrase = true ∨ k = .markup .leftBrace ∨ k = .markup .rightBrace
  | .link | .image => ∃ label rest, kinds = .markup .linkMark :: label ++ .markup .linkMark :: rest ∧
      (∀ k ∈ label, k.isPhrase = true) ∧ ∀ k ∈ rest, k.isQuiet = true
  | .inlineCode => ∀ k ∈ voiced kinds, k = .markup .codeText
  | .fencedCode => voiced kinds = [] ∨ voiced kinds = [.markup .codeText]
  | .verbatim => voiced kinds = [] ∨ voiced kinds = [.markup .verbatimText]
  | .mathInline | .mathBlock => voiced kinds = [] ∨ voiced kinds = [.markup .mathContent]
  | .blockComponent | .inlineComponent => IsBody (voiced kinds)
  | .interpolation => (∀ k ∈ voiced kinds, k = .markup .contentBlock) ∨ voiced kinds = [.markup .verbatim]
  | .autolink | .reference | .commentBlock | .script | .attributeLine | .dynamicName | .attributeList =>
    voiced kinds = []
  | .markupHole => kinds = [.markup .document]
  | .scriptBody | .attributeValue | .nameExpr | .inlineAttributes => ∀ k ∈ kinds, k.isForeign = true
  -- nodes of all other kinds are leaves
  | _ => False

/-- A branch of a document whose children are arranged as its kind says.  Nothing is said about leaves and faults, or
about nodes of scripts. -/
def Node.Arranged : Node → Prop
  | .inner (.markup kind) _ _ _ _ children => kind.Arranges (children.map Node.kind)
  | _ => True

/-- A tree all of whose nodes are arranged. -/
abbrev Composed : Node → Prop :=
  Node.Throughout Node.Arranged

/-- Every node without children is arranged, and every other one as its kind says. -/
theorem Node.Arranged.children {n : Node} {kind : MarkupKind} (h : n.Arranged) (hkind : n.kind = .markup kind) :
    n.children = [] ∨ kind.Arranges (n.children.map Node.kind) := by
  cases n with
  | leaf => exact .inl rfl
  | fault => exact .inl rfl
  | inner other span host count faulty children =>
      obtain rfl : other = .markup kind := hkind
      exact .inr h

/-- What a kind says of all children that are not quiet. -/
theorem Node.Arranged.each {n : Node} {kind : MarkupKind} {p : Kind → Prop} (h : n.Arranged)
    (hkind : n.kind = .markup kind) (hall : ∀ kinds, kind.Arranges kinds → ∀ k ∈ voiced kinds, p k) :
    ∀ m ∈ n.children, m.kind.isQuiet = true ∨ p m.kind := by
  intro m hm
  by_cases hquiet : m.kind.isQuiet = true
  · exact .inl hquiet
  · rcases h.children hkind with hnone | hkinds
    · rw [hnone] at hm
      exact absurd hm List.not_mem_nil
    · refine .inr (hall _ hkinds _ (List.mem_filter.mpr ⟨List.mem_map_of_mem hm, ?_⟩))
      rw [Bool.eq_false_iff.mpr hquiet]
      rfl

/-- A composed tree of a kind of some sort. -/
structure Sorted (sort : Kind → Bool) (n : Node) : Prop where
  composed : Composed n
  sort : sort n.kind = true

end ComponentMarkup.Tree

namespace ComponentMarkup.Markup

open ComponentMarkup.Text ComponentMarkup.Tree

variable {src : Source} {kind : MarkupKind} {nodes : List Node} {n : Node} {sort : Kind → Bool}

/-! ## Composed trees -/

theorem composed_leaf (kind : Kind) (text : String) (span : Span) : Composed (.leaf kind text span) :=
  .intro trivial fun _ hc => absurd hc List.not_mem_nil

theorem composed_branch (h : kind.Arranges (nodes.map Node.kind)) (hnodes : Each Composed nodes) :
    Composed (.markup kind nodes) :=
  .intro h hnodes

theorem composed_branchAt {place : Nat} (h : kind.Arranges (nodes.map Node.kind)) (hnodes : Each Composed nodes) :
    Composed (.branchAt (.markup kind) place nodes) := by
  refine .branchAt ?_ hnodes
  cases nodes with
  | nil => exact h
  | cons n nodes => exact h

namespace Each

theorem composed (h : Each (Sorted sort) nodes) : Each Composed nodes :=
  h.imp fun _ hn => hn.composed

/-- The kinds of nodes of a sort. -/
theorem kinds (h : Each (Sorted sort) nodes) : ∀ k ∈ nodes.map Node.kind, sort k = true := by
  intro k hk
  obtain ⟨n, hn, rfl⟩ := List.mem_map.mp hk
  exact (h n hn).sort

theorem voiced (h : Each (Sorted sort) nodes) : ∀ k ∈ voiced (nodes.map Node.kind), sort k = true :=
  fun k hk => h.kinds k (List.mem_filter.mp hk).1

end Each

theorem leafOf_sorted {a b : Nat} (h : sort (.markup kind) = true) : Sorted sort (leafOf src kind a b) :=
  ⟨composed_leaf _ _ _, h⟩

/-! ## Nodes of commands -/

/-- The nodes of a head are quiet. -/
theorem head_quiet (head : Head) : Each (Sorted Kind.isQuiet) (head.nodes src) := by
  have hparts : ∀ (left inside right : MarkupKind) (s : Span), Kind.isQuiet (.markup left) = true →
      Kind.isQuiet (.markup inside) = true → Kind.isQuiet (.markup right) = true →
      Each (Sorted Kind.isQuiet) (leafOf src left s.start (s.start + 1) ::
        (if s.start + 1 < s.stop - 1 then [leafOf src inside (s.start + 1) (s.stop - 1)] else []) ++
        [leafOf src right (s.stop - 1) s.stop]) := by
    intro left inside right s hleft hinside hright
    have hbody : Each (Sorted Kind.isQuiet)
        (if s.start + 1 < s.stop - 1 then [leafOf src inside (s.start + 1) (s.stop - 1)] else []) :=
      .optional (.single (leafOf_sorted hinside))
    exact (hbody.append (.single (leafOf_sorted hright))).cons (leafOf_sorted hleft)
  refine Each.append (Each.cons (leafOf_sorted rfl) ?_) ?_
  · split
    · exact .single (leafOf_sorted rfl)
    · rename_i s _
      have hname := hparts .leftParen .nameExpr .rightParen s rfl rfl rfl
      exact .single ⟨composed_branch (voiced_quiet hname.kinds) hname.composed, rfl⟩
    · exact .nil
  · split
    · rename_i s _
      have hlist := hparts .leftBracket .inlineAttributes .rightBracket s rfl rfl rfl
      exact .single ⟨composed_branch (voiced_quiet hlist.kinds) hlist.composed, rfl⟩
    · exact .nil

theorem verbatimNode_composed (src : Source) (opening closing : Nat) : Composed (verbatimNode src opening closing) := by
  refine composed_branch ?_ ?_
  · show voiced _ = [] ∨ voiced _ = [_]
    by_cases h : opening + 2 < closing
    · exact .inr (by rw [if_pos h]; rfl)
    · exact .inl (by rw [if_neg h]; rfl)
  · exact ((Each.optional (.single (composed_leaf _ _ _))).append (.single (composed_leaf _ _ _))).cons
      (composed_leaf _ _ _)

/-- What follows the head of a command is arranged by itself. -/
theorem voiced_head (head : Head) (nodes : List Node) :
    voiced ((head.nodes src ++ nodes).map Node.kind) = voiced (nodes.map Node.kind) := by
  rw [List.map_append, voiced_append, voiced_quiet (head_quiet head).kinds, List.nil_append]

end ComponentMarkup.Markup
