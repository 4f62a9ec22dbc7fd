import ComponentMarkup.Proofs.Render.ScriptMentions
import ComponentMarkup.Proofs.Render.Spoken

/-!
# Blocks and inline nodes say what they stand for

A rule of the renderer makes an expression out of what the nodes below are rendered to.  If these say what the nodes say,
then so does the expression: nothing is left out but nodes that say nothing, and nothing is moved.

* `Repeats`, `HeardBelow` — what is relied on while a node is rendered;
* `inline_spoken`, `sequence_spoken` — inline content and sequences of blocks;
* `heading_spoken`, `list_spoken`, `table_spoken`, `listing_spoken`, `formula_spoken` — blocks;
* `delimited_spoken`, `link_spoken` — inline nodes.
-/

namespace ComponentMarkup.Tree.Kind

/-- Kinds of nodes that stand among inline content. -/
def isInline (kind : Kind) : Bool :=
  kind.isPhrase || kind.isQuiet || kind == .markup .codeText

variable {kind : Kind}

theorem isInline_phrase (h : kind.isPhrase = true) : kind.isInline = true := by
  rw [isInline, h]
  rfl

theorem isInline_quiet (h : kind.isQuiet = true) : kind.isInline = true := by
  rw [isInline, h, Bool.or_true]
  rfl

end ComponentMarkup.Tree.Kind

namespace ComponentMarkup.Render

open ComponentMarkup.Text ComponentMarkup.Tree ComponentMarkup.Document ComponentMarkup.Program ComponentMarkup.Markup

/-- What an expression says that may be missing. -/
def proseOf (e : Option Expr) : List String :=
  (e.map Expr.prose).getD []

/-- A renderer repeats what a node says. -/
structure Repeats (render : Renderer) (n : Node) : Prop where
  inline : n.kind.isInline = true → Says n (proseOf (render .inline n).value)
  block : n.kind.isBlock = true ∨ n.kind.isQuiet = true → Says n (proseOf (render .block n).value)

/-- A settled tree all of whose nodes a renderer repeats. -/
structure Heard (render : Renderer) (n : Node) : Prop where
  settled : n.Throughout Node.Settled
  repeated : n.Throughout (Repeats render)

/-- A settled tree all of whose nodes but its root a renderer repeats. -/
structure HeardBelow (render : Renderer) (n : Node) : Prop where
  settled : n.Throughout Node.Settled
  repeated : ∀ m ∈ n.children, m.Throughout (Repeats render)

variable {render : Renderer} {settings : Settings} {n m : Node} {ns : List Node} {kind : MarkupKind} {ss : List String}

theorem Heard.below (h : Heard render n) : HeardBelow render n :=
  ⟨h.settled, fun _ hm => h.repeated.child hm⟩

theorem HeardBelow.child (h : HeardBelow render n) (hm : m ∈ n.children) : Heard render m :=
  ⟨h.settled.child hm, h.repeated m hm⟩

/-! ## Inline content -/

theorem flatMap_reduced {α : Type} (as : List (Option α)) (f : α → List String) :
    (as.filterMap id).flatMap f = as.flatMap fun a? => (a?.map f).getD [] := by
  induction as with
  | nil => rfl
  | cons a? as ih =>
      cases a? with
      | none => exact ih
      | some a => exact congrArg (f a ++ ·) ih

/-- Inline content is what its nodes are rendered to, one after the other. -/
theorem inlineElems_prose (render : Renderer) (ns : List Node) :
    elemsProse 0 (inlineElems render ns).value = ns.flatMap fun n => proseOf (render .inline n).value := by
  have hvalue : (inlineElems render ns).value =
      ((ns.map fun n => (render .inline n).value).filterMap id).map Elem.item := by
    rw [inlineElems, inlineExprs, Rendered.value_bind, Rendered.value_pure, Rendered.value_bind, Rendered.value_pure,
      Rendered.value_forAll]
  rw [hvalue, elemsProse_items, flatMap_reduced, List.flatMap_map]
  rfl

theorem inline_spoken (h : ∀ n ∈ ns, Heard render n) (hinline : ∀ n ∈ ns, n.kind.isInline = true) :
    SayAll ns (elemsProse 0 (inlineElems render ns).value) := by
  rw [inlineElems_prose]
  exact .flatMap fun n hn => (h n hn).repeated.here.inline (hinline n hn)

/-- Quiet nodes may be left out of inline content. -/
theorem inline_sift {keep : Node → Bool} (h : ∀ n ∈ ns, Heard render n) (hinline : ∀ n ∈ ns, n.kind.isInline = true)
    (hdropped : ∀ n ∈ ns, keep n = false → n.kind.isQuiet = true) :
    SayAll ns (elemsProse 0 (inlineElems render (ns.filter keep)).value) := by
  refine .sift (fun n hn hdrop => quiet_spoken n (h n hn).settled (hdropped n hn hdrop)) ?_
  exact inline_spoken (fun n hn => h n (List.mem_filter.mp hn).1) fun n hn => hinline n (List.mem_filter.mp hn).1

theorem without_spoken {kinds : List MarkupKind} (h : ∀ m ∈ n.children, Heard render m)
    (hinline : ∀ m ∈ n.children, m.kind.isInline = true) (hquiet : ∀ k ∈ kinds, Kind.isQuiet (.markup k) = true) :
    SayAll n.children (elemsProse 0 (inlineElems render (without kinds n)).value) := by
  refine inline_sift h hinline fun m _ hdrop => ?_
  obtain ⟨k, hk, hkind⟩ := List.any_eq_true.mp (by simpa using hdrop)
  rw [beq_iff_eq.mp hkind]
  exact hquiet k hk

/-- The children of a node that holds phrases are inline. -/
theorem phrases_inline (h : n.Settled) (hkind : n.kind = .markup kind)
    (hall : ∀ kinds, kind.Arranges kinds → ∀ k ∈ voiced kinds, k.isPhrase = true) :
    ∀ m ∈ n.children, m.kind.isInline = true := by
  intro m hm
  rcases h.arranged.each hkind hall m hm with hquiet | hphrase
  · exact Kind.isInline_quiet hquiet
  · exact Kind.isInline_phrase hphrase

/-- A node of phrases says what its children are rendered to. -/
theorem phrases_spoken (h : HeardBelow render n) (hkind : n.kind = .markup kind) (htransparent : isTransparent kind = true)
    (hall : ∀ kinds, kind.Arranges kinds → ∀ k ∈ voiced kinds, k.isPhrase = true) :
    Says n (elemsProse 0 (inlineElems render n.children).value) :=
  says_children hkind htransparent
    (inline_spoken (fun _ hm => h.child hm) (phrases_inline h.settled.here hkind hall))

/-! ## Sequences of blocks -/

/-- What a part of a sequence says. -/
def partProse : Part → List String
  | .block e => e.prose
  | _ => []

theorem nestParts_prose (parts : List Part) : elemsProse 0 (nestParts parts) = parts.flatMap partProse := by
  induction parts with
  | nil => rfl
  | cons part parts ih =>
      rw [List.flatMap_cons, ← ih]
      cases part with
      | block e => rfl
      | property member => rfl
      | scope statements origin =>
          rw [nestParts, elemsProse_spread, prose_located]
          rfl

/-- A view of a script or an attribute is one of a mute node. -/
theorem mute_view (hview : (∃ key value, view? n = some (.attributeLine key value)) ∨ ∃ body, view? n = some (.script body)) :
    ∃ kind, n.kind = .markup kind ∧ isMute kind = true := by
  unfold view? at hview
  cases hkind : n.kind with
  | script => simp [hkind, Kind.markup?] at hview
  | fault => simp [hkind, Kind.markup?] at hview
  | markup kind =>
      rw [hkind] at hview
      refine ⟨kind, rfl, ?_⟩
      cases kind
      all_goals first
        | rfl
        | simp [Kind.markup?, viewOf?] at hview

/-- What a node of a sequence says is in its part. -/
theorem part_spoken (h : Heard render n) (hblock : n.kind.isBlock = true ∨ n.kind.isQuiet = true) (configurable : Bool) :
    Says n (((partOf render configurable n).value.map partProse).getD []) := by
  unfold partOf
  split
  · rename_i key value hview
    obtain ⟨kind, hkind, hmute⟩ := mute_view (.inl ⟨key, value, hview⟩)
    have hnothing : ((attributePart render configurable n key value).value.map partProse).getD [] = [] := by
      unfold attributePart
      split
      · rfl
      · rfl
    rw [hnothing]
    exact mute_spoken h.settled hkind hmute
  · rename_i body hview
    obtain ⟨kind, hkind, hmute⟩ := mute_view (.inr ⟨body, hview⟩)
    rw [Rendered.value_bind, Rendered.value_pure]
    split
    · exact mute_spoken h.settled hkind hmute
    · exact mute_spoken h.settled hkind hmute
  · rw [Rendered.value_bind, Rendered.value_pure, Option.map_map]
    exact h.repeated.here.block hblock

/-- A sequence says what its nodes are rendered to. -/
theorem sequence_spoken (h : ∀ n ∈ ns, Heard render n) (hblock : ∀ n ∈ ns, n.kind.isBlock = true ∨ n.kind.isQuiet = true)
    (configurable : Bool) : SayAll ns (elemsProse 0 (nestParts (sequenceParts render configurable ns).value)) := by
  rw [nestParts_prose, sequenceParts, Rendered.value_bind, Rendered.value_pure, Rendered.value_forAll, flatMap_reduced,
    List.flatMap_map]
  exact .flatMap fun n hn => part_spoken (h n hn) (hblock n hn) configurable

/-- The children of a node that holds blocks are blocks or quiet. -/
theorem blocks_kinds (h : n.Settled) (hkind : n.kind = .markup kind)
    (hall : ∀ kinds, kind.Arranges kinds → ∀ k ∈ voiced kinds, k.isBlock = true) :
    ∀ m ∈ n.children, m.kind.isBlock = true ∨ m.kind.isQuiet = true :=
  fun m hm => (h.arranged.each hkind hall m hm).symm

/-- Trivia and the marks of quotations say nothing. -/
theorem trivia_spoken (h : n.Throughout Node.Settled) (hdrop : (!n.kind.isTrivia && !n.isMarkup .quoteMarker) = false) :
    Says n [] := by
  by_cases hmark : n.kind = .markup .quoteMarker
  · exact quiet_spoken n h (by rw [hmark]; rfl)
  · have htrivia : n.kind.isTrivia = true := by
      rw [Node.isMarkup, beq_eq_false_iff_ne.mpr hmark] at hdrop
      simpa using hdrop
    cases hkind : n.kind with
    | script => exact foreign_spoken (by rw [hkind]; rfl)
    | fault => exact foreign_spoken (by rw [hkind]; rfl)
    | markup kind =>
        refine quiet_spoken n h ?_
        rw [hkind] at htrivia ⊢
        cases kind
        all_goals first
          | rfl
          | exact absurd htrivia Bool.false_ne_true

/-- What a node says is said by its significant children. -/
theorem significant_spoken (h : n.Throughout Node.Settled) (hall : SayAll (significant n) ss) : SayAll n.children ss :=
  hall.sift fun _ hm hdrop => trivia_spoken (h.child hm) hdrop

/-! ## Parts of nodes -/

/-- Nodes of some kinds are leaves. -/
theorem leaf_of_kind (h : n.Arranged) (hkind : n.kind = .markup kind) (hnever : ∀ kinds, ¬ kind.Arranges kinds) :
    ∃ text span, n = .leaf (.markup kind) text span := by
  cases n with
  | leaf other text span =>
      obtain rfl : other = .markup kind := hkind
      exact ⟨text, span, rfl⟩
  | fault => cases hkind
  | inner other span host count faulty children =>
      obtain rfl : other = .markup kind := hkind
      exact absurd h (hnever _)

/-- The nodes that are not quiet, where there is at most one, of a certain kind. -/
theorem loud_cases (hkinds : voiced (ns.map Node.kind) = [] ∨ voiced (ns.map Node.kind) = [.markup kind]) :
    loud ns = [] ∨ ∃ m ∈ ns, loud ns = [m] ∧ m.kind = .markup kind := by
  rcases hkinds with hnone | hone
  · exact .inl (List.map_eq_nil_iff.mp ((kinds_loud ns).trans hnone))
  · obtain ⟨m, hm, hkind⟩ := List.map_eq_singleton_iff.mp ((kinds_loud ns).trans hone)
    refine .inr ⟨m, ?_, hm, hkind⟩
    have hmem : m ∈ loud ns := hm ▸ List.mem_singleton_self m
    exact (List.mem_filter.mp hmem).1

/-- A part that a node has at most once, if nothing else in it is loud. -/
theorem part_cases (h : n.Arranged) (hkind : n.kind = .markup kind) {part : MarkupKind}
    (hquiet : Kind.isQuiet (.markup part) = false)
    (hall : ∀ kinds, kind.Arranges kinds → voiced kinds = [] ∨ voiced kinds = [.markup part]) :
    (n.child? part = none ∧ loud n.children = []) ∨
      ∃ m ∈ n.children, n.child? part = some m ∧ loud n.children = [m] ∧ m.kind = .markup part := by
  have hkinds : voiced (n.children.map Node.kind) = [] ∨ voiced (n.children.map Node.kind) = [.markup part] := by
    rcases h.children hkind with hnone | hkinds
    · exact .inl (by rw [hnone]; rfl)
    · exact hall _ hkinds
  rw [child?_loud hquiet]
  rcases loud_cases hkinds with hnone | ⟨m, hm, hone, hpart⟩
  · exact .inl ⟨by rw [hnone]; rfl, hnone⟩
  · refine .inr ⟨m, hm, ?_, hone, hpart⟩
    rw [hone, List.find?_cons_of_pos (by rw [Node.isMarkup, hpart]; exact beq_self_eq_true _)]

/-- Where a node has parts of one kind only, it says what they say. -/
theorem parts_spoken {part : MarkupKind} {word : Node → List String} (h : HeardBelow render n)
    (hkind : n.kind = .markup kind) (hall : ∀ kinds, kind.Arranges kinds → ∀ k ∈ voiced kinds, k = .markup part)
    (hword : ∀ m, HeardBelow render m → m.kind = .markup part → Says m (word m)) :
    SayAll n.children ((n.children.filter (·.isMarkup part)).flatMap word) := by
  refine .sift (fun m hm hdrop => ?_) (.flatMap fun m hm => ?_)
  · rcases h.settled.here.arranged.each hkind hall m hm with hquiet | hpart
    · exact quiet_spoken m (h.settled.child hm) hquiet
    · exact absurd hdrop (by rw [Node.isMarkup, hpart]; simp)
  · obtain ⟨hmem, hpart⟩ := List.mem_filter.mp hm
    exact hword m (h.child hmem).below (beq_iff_eq.mp hpart)

/-! ## Blocks -/

/-- The marker of a heading stands first. -/
theorem heading_spoken (h : HeardBelow render n) (hkind : n.kind = .markup .heading) :
    SayAll n.children (elemsProse 0 (inlineElems render (headingContents n)).value) := by
  have hinline := phrases_inline h.settled.here hkind fun _ harranges => harranges.2
  unfold headingContents
  rcases h.settled.here.arranged.children hkind with hnone | ⟨hfirst, -⟩
  · rw [hnone]
    exact .nil
  · cases hchildren : n.children with
    | nil =>
        rw [hchildren] at hfirst
        exact absurd hfirst nofun
    | cons marker rest =>
        rw [hchildren] at hfirst
        have hmarker : marker.kind = .markup .headingMarker := Option.some.inj hfirst
        have hmem : ∀ m ∈ marker :: rest, m ∈ n.children := fun m hm => hchildren ▸ hm
        rw [List.dropWhile_cons_of_neg (by rw [Node.isMarkup, hmarker]; simp), List.drop_one, List.tail_cons]
        have hnothing : Says marker [] :=
          quiet_spoken marker (h.settled.child (hmem _ List.mem_cons_self)) (by rw [hmarker]; rfl)
        have hrest : ∀ m ∈ rest, m ∈ n.children := fun m hm => hmem m (List.mem_cons_of_mem marker hm)
        refine hnothing.append (inline_sift (fun m hm => h.child (hrest m hm)) (fun m hm => hinline m (hrest m hm))
          fun m _ hdrop => ?_)
        have hspace : m.isMarkup .space = true := by simpa using hdrop
        rw [beq_iff_eq.mp hspace]
        rfl

/-- What is rendered for several nodes, each on its own. -/
theorem elemsProse_map (f : Node → Elem) (ns : List Node) :
    elemsProse 0 (ns.map f) = ns.flatMap fun n => elemsProse 0 [f n] := by
  induction ns with
  | nil => rfl
  | cons n ns ih => rw [List.map_cons, List.flatMap_cons, ← ih, ← elemsProse_append, List.singleton_append]

/-- A sequence in which attributes have no place says what its blocks say. -/
theorem plainSequence_spoken (h : ∀ n ∈ ns, Heard render n)
    (hblock : ∀ n ∈ ns, n.kind.isBlock = true ∨ n.kind.isQuiet = true) : SayAll ns (plainSequence render ns).value.prose := by
  have hall := sequence_spoken h hblock false
  exact hall

/-- The blocks that a node holds say what the node says. -/
theorem quotation_spoken (h : HeardBelow render n) (hkind : n.kind = .markup .blockquote) :
    SayAll n.children (plainSequence render (significant n)).value.prose := by
  have hblock := blocks_kinds h.settled.here hkind fun _ harranges => harranges
  refine significant_spoken h.settled (plainSequence_spoken (fun m hm => ?_) fun m hm => ?_)
  · exact h.child (significant_subset n hm)
  · exact hblock m (significant_subset n hm)

/-- An item of a list says what its blocks say. -/
theorem item_spoken (h : HeardBelow render n) (hkind : n.kind = .markup .listItem) :
    Says n (elemsProse 0 [(item render n).value]) := by
  have hview : view? n = some (.listItem ((n.child? .taskMarker).map fun box => box.text != "[ ]") (itemBlocks n)) := by
    rw [view?, hkind]
    rfl
  have hblock := blocks_kinds h.settled.here hkind fun _ harranges => harranges
  have hblocks : SayAll n.children (plainSequence render (itemBlocks n)).value.prose := by
    refine significant_spoken h.settled (.sift (fun m hm hdrop => ?_) (plainSequence_spoken (fun m hm => ?_) fun m hm => ?_))
    · refine quiet_spoken m (h.settled.child (significant_subset n hm)) ?_
      have hmarks : m.kind = .markup .listMarker ∨ m.kind = .markup .taskMarker := by
        by_cases hmarker : m.kind = .markup .listMarker
        · exact .inl hmarker
        · rw [Node.isMarkup, Node.isMarkup, beq_eq_false_iff_ne.mpr hmarker] at hdrop
          exact .inr (by simpa using hdrop)
      rcases hmarks with hmark | hmark
      · rw [hmark]
        rfl
      · rw [hmark]
        rfl
    · exact h.child (itemBlocks_subset n hm)
    · exact hblock m (itemBlocks_subset n hm)
  refine says_children hkind rfl ?_
  unfold item
  rw [hview]
  dsimp only
  rw [Rendered.value_bind, Rendered.value_pure, elemsProse_item, prose_located, prose_tag, elemsProse_append,
    elemsProse_spread]
  cases (n.child? .taskMarker).map fun box => box.text != "[ ]" with
  | none => exact hblocks
  | some done => exact hblocks

/-- A list says what its items say. -/
theorem list_spoken (h : HeardBelow render n) (hkind : n.kind = .markup kind)
    (hall : ∀ kinds, kind.Arranges kinds → ∀ k ∈ voiced kinds, k = .markup .listItem) (ordered : Bool)
    (first : Option Nat) : SayAll n.children (list render ordered first (listItems n)).value.prose := by
  unfold list
  rw [Rendered.value_bind, Rendered.value_pure, prose_element, Rendered.value_forAll, elemsProse_map]
  exact parts_spoken h hkind hall fun _ => item_spoken

/-- The cells of a row are what is rendered for their contents. -/
theorem cells_prose (tag : String) (aligns : List (Option Align)) (ns : List Node) :
    elemsProse 0 (cells render tag aligns ns).value =
      ns.flatMap fun n => elemsProse 0 (inlineElems render n.children).value := by
  induction ns generalizing aligns with
  | nil => rfl
  | cons n ns ih =>
      rw [cells, Rendered.value_bind, Rendered.value_bind, Rendered.value_pure, elemsProse, prose_element, ih,
        List.flatMap_cons]

/-- A row of a table says what its cells say. -/
theorem row_spoken (h : HeardBelow render n) (hkind : n.kind = .markup kind)
    (hall : ∀ kinds, kind.Arranges kinds → ∀ k ∈ voiced kinds, k = .markup .tableCell)
    (htransparent : isTransparent kind = true) (tag : String) (aligns : List (Option Align)) :
    Says n (elemsProse 0 [(row render tag aligns n).value]) := by
  refine says_children hkind htransparent ?_
  unfold row
  rw [Rendered.value_bind, Rendered.value_pure, elemsProse_item, prose_located, prose_tag, cells_prose]
  exact parts_spoken h hkind hall fun m hm hcell => phrases_spoken hm hcell rfl fun _ harranges => harranges

/-- A table says what its header and its rows say. -/
theorem table_spoken (h : HeardBelow render n) (hkind : n.kind = .markup .table) (aligns : List (Option Align)) :
    SayAll n.children
      (table render (n.child? .tableHeader) (n.children.filter (·.isMarkup .tableRow)) aligns).value.prose := by
  have hprose : ∀ header rows, (table render header rows aligns).value.prose =
      (header.toList.flatMap fun m => elemsProse 0 [(row render "th" aligns m).value]) ++
        rows.flatMap fun m => elemsProse 0 [(row render "td" aligns m).value] := by
    intro header rows
    rw [table, Rendered.value_bind, Rendered.value_bind, Rendered.value_pure, prose_tag, Rendered.value_forAll,
      Rendered.value_forAll, ← elemsProse_map, ← elemsProse_map, elemsProse, elemsProse_item, prose_tag, prose_tag]
  rw [hprose]
  rcases h.settled.here.arranged.children hkind with hnone | ⟨rows, hkinds, hrows⟩
  · rw [Node.child?, Node.find?, hnone]
    exact .nil
  · obtain ⟨header, others, hloud, hheader, hothers⟩ := List.map_eq_cons_iff.mp ((kinds_loud n.children).trans hkinds)
    have hmem : ∀ m ∈ header :: others, m ∈ n.children := fun m hm => (List.mem_filter.mp (hloud ▸ hm)).1
    have hfirst : n.child? .tableHeader = some header := by
      rw [child?_loud rfl, hloud, List.find?_cons_of_pos (by rw [Node.isMarkup, hheader]; rfl)]
    have hrow : ∀ m ∈ others, m.kind = .markup .tableRow := fun m hm => hrows _ (hothers ▸ List.mem_map_of_mem hm)
    have hrest : n.children.filter (·.isMarkup .tableRow) = others := by
      rw [filter_loud rfl, hloud, List.filter_cons_of_neg (by rw [Node.isMarkup, hheader]; exact Bool.false_ne_true)]
      exact List.filter_eq_self.mpr fun m hm => beq_iff_eq.mpr (hrow m hm)
    rw [hfirst, hrest]
    refine says_loud (fun m hm => h.settled.child hm) ?_
    rw [hloud, Option.toList_some, List.flatMap_singleton]
    refine .cons ?_ (.flatMap fun m hm => ?_)
    · exact row_spoken (h.child (hmem header List.mem_cons_self)).below hheader (fun _ harranges => harranges) rfl _ _
    · exact row_spoken (h.child (hmem m (List.mem_cons_of_mem header hm))).below (hrow m hm) (fun _ harranges => harranges) rfl _ _

/-- Leaves of code say their text. -/
theorem leaf_spoken (h : n.Arranged) (hkind : n.kind = .markup kind) (hnever : ∀ kinds, ¬ kind.Arranges kinds) :
    Says n (leafProse (.markup kind) n.text) := by
  obtain ⟨text, span, rfl⟩ := leaf_of_kind h hkind hnever
  exact .all _

/-- A node with one text in it says the text. -/
theorem text_spoken (h : HeardBelow render n) (hkind : n.kind = .markup kind) {part : MarkupKind}
    (hpart : part = .codeText ∨ part = .verbatimText)
    (hall : ∀ kinds, kind.Arranges kinds → voiced kinds = [] ∨ voiced kinds = [.markup part]) :
    SayAll n.children (literalProse (childText n part)) := by
  have hleaf : ∀ m ∈ n.children, m.kind = .markup part → Says m (literalProse m.text) := by
    intro m hm hcode
    rcases hpart with rfl | rfl
    · exact leaf_spoken (h.child hm).settled.here.arranged hcode fun _ => id
    · exact leaf_spoken (h.child hm).settled.here.arranged hcode fun _ => id
  have hquiet : Kind.isQuiet (.markup part) = false := by
    rcases hpart with rfl | rfl
    · rfl
    · rfl
  refine says_loud (fun m hm => h.settled.child hm) ?_
  rcases part_cases h.settled.here.arranged hkind hquiet hall with ⟨hnone, hloud⟩ | ⟨m, hm, hsome, hloud, hcode⟩
  · rw [hloud, childText, hnone]
    exact .nil
  · rw [hloud, childText, hsome]
    exact .single (hleaf m hm hcode)

/-- A block of code says its text. -/
theorem listing_spoken (h : HeardBelow render n) (hkind : n.kind = .markup .fencedCode) (language : Option String) :
    SayAll n.children (listing language (childText n .codeText)).value.prose := by
  rw [listing, Rendered.value_bind, Rendered.value_pure, prose_element, elemsProse_item]
  exact text_spoken h hkind (.inl rfl) fun _ harranges => harranges

/-- A formula says what its content says. -/
theorem formula_spoken (h : HeardBelow render n) (hkind : n.kind = .markup kind)
    (hall : ∀ kinds, kind.Arranges kinds → voiced kinds = [] ∨ voiced kinds = [.markup .mathContent]) (display : Bool) :
    SayAll n.children
      (formula render display (((n.child? .mathContent).map Node.children).getD [])).value.prose := by
  have hprose : ∀ nodes, (formula render display nodes).value.prose = elemsProse 0 (inlineElems render nodes).value := by
    intro nodes
    rw [formula, Rendered.value_bind, Rendered.value_bind, Rendered.value_pure, prose_element]
  rw [hprose]
  refine says_loud (fun m hm => h.settled.child hm) ?_
  rcases part_cases h.settled.here.arranged hkind rfl hall with ⟨hnone, hloud⟩ | ⟨m, hm, hsome, hloud, hcontent⟩
  · rw [hloud, hnone]
    exact .nil
  · rw [hloud, hsome]
    exact .single (phrases_spoken (h.child hm).below hcontent rfl fun _ harranges => harranges)

/-! ## Inline nodes -/

/-- Content between marks says what its nodes say. -/
theorem delimited_spoken (h : HeardBelow render n) (hinline : ∀ m ∈ n.children, m.kind.isInline = true) :
    SayAll n.children (elemsProse 0 (inlineElems render (without [.emphMark, .codeMark] n)).value) := by
  refine without_spoken (fun m hm => h.child hm) hinline fun k hk => ?_
  rcases List.mem_pair.mp hk with rfl | rfl
  · rfl
  · rfl

/-- A link says what its label says. -/
theorem link_spoken (h : HeardBelow render n) (hkind : n.kind = .markup .link) :
    SayAll n.children (elemsProse 0 (inlineElems render (linkContents n)).value) := by
  rcases h.settled.here.arranged.children hkind with hnone | ⟨labelKinds, restKinds, hkinds, hlabel, hrest⟩
  · rw [linkContents, hnone]
    exact .nil
  · obtain ⟨front, back, hchildren, hfront, hback⟩ := List.map_eq_append_iff.mp hkinds
    obtain ⟨first, label, rfl, hfirst, hlabelKinds⟩ := List.map_eq_cons_iff.mp hfront
    obtain ⟨second, rest, rfl, hsecond, hrestKinds⟩ := List.map_eq_cons_iff.mp hback
    have hmem : ∀ m ∈ first :: (label ++ second :: rest), m ∈ n.children := fun m hm => hchildren ▸ hm
    have hphrase : ∀ m ∈ label, m.kind.isPhrase = true :=
      fun m hm => hlabel _ (hlabelKinds ▸ List.mem_map_of_mem hm)
    have hquiet : ∀ m ∈ second :: rest, m.kind.isQuiet = true := by
      intro m hm
      rcases List.mem_cons.mp hm with rfl | hm
      · rw [hsecond]
        rfl
      · exact hrest _ (hrestKinds ▸ List.mem_map_of_mem hm)
    have hcontents : linkContents n = label := by
      rw [linkContents, hchildren, List.cons_append, List.drop_one, List.tail_cons,
        List.takeWhile_append_of_pos, List.takeWhile_cons_of_neg, List.append_nil]
      · rw [Node.isMarkup, hsecond]
        simp
      · intro m hm
        have hother : m.kind ≠ .markup .linkMark := by
          intro hmark
          have hkept := hphrase m hm
          rw [hmark] at hkept
          exact absurd hkept Bool.false_ne_true
        rw [Node.isMarkup, beq_eq_false_iff_ne.mpr hother]
        rfl
    have hlabelSays : SayAll label (elemsProse 0 (inlineElems render label).value) := by
      refine inline_spoken (fun m hm => h.child (hmem m ?_)) fun m hm => Kind.isInline_phrase (hphrase m hm)
      exact List.mem_cons_of_mem first (List.mem_append_left _ hm)
    have hmarks : SayAll (second :: rest) [] := by
      refine .silent fun m hm => quiet_spoken m (h.settled.child (hmem m ?_)) (hquiet m hm)
      exact List.mem_cons_of_mem first (List.mem_append_right label hm)
    have hfirstSays : Says first [] :=
      quiet_spoken first (h.settled.child (hmem first List.mem_cons_self)) (by rw [hfirst]; rfl)
    have hall := SayAll.cons hfirstSays (SayAll.append hlabelSays hmarks)
    rw [List.append_nil] at hall
    rw [hcontents, hchildren]
    exact hall

end ComponentMarkup.Render
