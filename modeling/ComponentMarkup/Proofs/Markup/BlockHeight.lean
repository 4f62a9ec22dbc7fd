import ComponentMarkup.Proofs.Markup.FillTiling
import ComponentMarkup.Proofs.Markup.InlineHeight

/-!
# The height of blocks

A block is at most three branches higher than the inline content and the blocks inside it, as a table is over what
stands in a cell.  Blocks nest only so deep, so a document is only so high, however many lines it has.

* `readBlock_upTo` — what a block adds to what is inside it;
* `blockNodes_upTo` — blocks are only so high;
* `readDocument_upTo`, `readInlineContent_upTo` — so are the trees of documents and of inline content.
-/

namespace ComponentMarkup.Markup

open ComponentMarkup.Text ComponentMarkup.Tree

variable {src : Source} {kind : MarkupKind} {nodes : List Node} {bound : Nat}

/-! ## Gaps -/

theorem gapLeaves_upTo (start place : Nat) (cs : List Char) : UpTo bound (gapLeaves src start place cs) := by
  have hspace : ∀ start place, UpTo bound (if start < place then [leafOf src .space start place] else []) :=
    fun _ _ => .optional (.single (leafOf_flat _ _ _ _))
  induction cs generalizing start place with
  | nil => exact hspace _ _
  | cons c cs ih =>
      unfold gapLeaves
      split
      · exact (hspace _ _).append (.cons (leafOf_flat _ _ _ _) (ih _ _))
      · exact ih _ _

theorem fill_upTo (cursor stop : Nat) (h : UpTo bound nodes) : UpTo bound (fill src cursor stop nodes) := by
  have hgap : ∀ start stop, UpTo bound (gap src start stop) :=
    fun start stop => .optional (gapLeaves_upTo start start _)
  induction nodes generalizing cursor with
  | nil => exact hgap cursor stop
  | cons n nodes ih =>
      have hrest := ih (max cursor n.stop) fun m hm => h m (List.mem_cons_of_mem _ hm)
      exact (hgap cursor n.start).append (hrest.cons (h n List.mem_cons_self))

/-- A branch with its gaps filled. -/
theorem filled_flat (kind : MarkupKind) (start stop : Nat) (h : UpTo bound nodes) :
    (filled src kind start stop nodes).markupHeight ≤ bound + 1 :=
  UpTo.markup (fill_upTo start stop h) kind

/-- A branch over leaves counts as little as any. -/
theorem filled_leaves (kind : MarkupKind) (start stop : Nat) (h : UpTo 0 nodes) :
    (filled src kind start stop nodes).markupHeight ≤ bound + 3 :=
  Nat.le_trans (filled_flat kind start stop h) (by omega)

/-! ## Rules -/

/-- What is relied on while blocks are read: inline content and the blocks inside a block are only so high. -/
structure BlockEnv.UpTo (bound : Nat) (env : BlockEnv) : Prop where
  inline : ∀ segments mode, Tree.UpTo bound (env.inline segments mode).value
  nested : ∀ lines, Tree.UpTo bound (env.nested lines).value

/-- A leaf on each of several lines. -/
theorem leaves_upTo (lines : List Span) (first last : Span → Nat) :
    UpTo bound (lines.map fun l => leafOf src kind (first l) (last l)) := by
  intro n hn
  obtain ⟨l, _, rfl⟩ := List.mem_map.mp hn
  exact leafOf_flat _ _ _ _

theorem bodyLeaf_upTo (body : List Span) : UpTo bound (bodyLeaf src kind body) := by
  unfold bodyLeaf
  split
  · exact .single (leafOf_flat _ _ _ _)
  · exact .nil

section Rules

variable {env : BlockEnv} {line : Span} {later : List Span} {result : Limited (Node × List Span)}

theorem commentBlock_flat (h : commentBlock env line later = some result) :
    result.value.1.markupHeight ≤ bound + 3 := by
  unfold commentBlock at h
  dsimp only at h
  split at h
  · obtain rfl := Option.some.inj h
    exact filled_leaves _ _ _ (leaves_upTo _ _ _)
  · exact absurd h (Option.some_ne_none result).symm

theorem scriptBlock_flat (h : scriptBlock env line later = some result) :
    result.value.1.markupHeight ≤ bound + 3 := by
  unfold scriptBlock at h
  dsimp only at h
  split at h
  · exact absurd h (Option.some_ne_none result).symm
  split at h
  · obtain rfl := Option.some.inj h
    exact filled_leaves _ _ _ (((bodyLeaf_upTo _).append (leaves_upTo _ _ _)).cons (leafOf_flat _ _ _ _))
  · obtain rfl := Option.some.inj h
    exact filled_leaves _ _ _ ((UpTo.optional (.single (leafOf_flat _ _ _ _))).cons (leafOf_flat _ _ _ _))

theorem attributeBlock_flat (h : attributeBlock env line later = some result) :
    result.value.1.markupHeight ≤ bound + 3 := by
  obtain ⟨width, _, h⟩ := Option.bind_eq_some_iff.mp h
  dsimp only at h
  have hhead : ∀ a b c d e f, UpTo 0 [leafOf env.source .attributeMark a b, leafOf env.source .attributeKey c d,
      leafOf env.source .colon e f] := fun _ _ _ _ _ _ =>
    .cons (leafOf_flat _ _ _ _) (.cons (leafOf_flat _ _ _ _) (.single (leafOf_flat _ _ _ _)))
  split at h
  · obtain rfl := Option.some.inj h
    refine filled_leaves _ _ _ ((hhead _ _ _ _ _ _).append ?_)
    split
    · exact .single (leafOf_flat _ _ _ _)
    · exact .nil
  · obtain rfl := Option.some.inj h
    exact filled_leaves _ _ _ ((hhead _ _ _ _ _ _).append (.single (leafOf_flat _ _ _ _)))

theorem codeBlock_flat (h : codeBlock env line later = some result) :
    result.value.1.markupHeight ≤ bound + 3 := by
  obtain ⟨⟨mark, width⟩, _, h⟩ := Option.bind_eq_some_iff.mp h
  obtain rfl := Option.some.inj h
  refine filled_leaves _ _ _ ?_
  exact (((UpTo.optional (.single (leafOf_flat _ _ _ _))).cons (leafOf_flat _ _ _ _)).append (bodyLeaf_upTo _)).append
    (leaves_upTo _ _ _)

variable (he : env.UpTo bound)

include he

theorem componentBody_upTo : UpTo (bound + 1) (componentBody env line later).value.1 := by
  unfold componentBody
  dsimp only
  split
  · exact .nil
  · rw [value_bind]
    split
    · exact .nil
    · exact .single (filled_flat _ _ _ (he.nested _))

theorem componentLine_upTo (start stop : Nat) : UpTo (bound + 1) (componentLine env start stop).value := by
  unfold componentLine
  dsimp only
  split
  · exact .single (UpTo.markup (he.inline _ _) _)
  · exact .nil

theorem componentBlock_flat (h : componentBlock env line later = some result) :
    result.value.1.markupHeight ≤ bound + 3 := by
  unfold componentBlock at h
  dsimp only at h
  split at h
  · exact absurd h (Option.some_ne_none result).symm
  obtain ⟨⟨head, form⟩, _, h⟩ := Option.bind_eq_some_iff.mp h
  have hhead : UpTo (bound + 2) (head.nodes env.source) := head.nodes_upTo.weaken (by omega)
  dsimp only at h
  split at h
  · obtain ⟨rest, _, h⟩ := Option.bind_eq_some_iff.mp h
    obtain rfl := Option.some.inj h
    refine filled_flat _ _ _ (hhead.append (.single ?_))
    exact Nat.le_trans (verbatimNode_flat _ _) (by omega)
  · obtain ⟨rest, _, h⟩ := Option.bind_eq_some_iff.mp h
    obtain rfl := Option.some.inj h
    refine filled_flat _ _ _ (hhead.append ?_)
    exact ((UpTo.optional (.single (leafOf_flat _ _ _ _))).cons (leafOf_flat _ _ _ _)).append
      (.single (leafOf_flat _ _ _ _))
  · obtain rfl := Option.some.inj h
    have hcontent : ∀ a b, UpTo (bound + 1) (leafOf env.source .colon a b :: (componentLine env b line.stop).value ++
        (componentBody env line later).value.1) :=
      fun a b => ((componentLine_upTo he _ _).cons (leafOf_flat _ _ _ _)).append (componentBody_upTo he)
    exact filled_flat _ _ _ (hhead.append ((hcontent _ _).weaken (Nat.le_succ _)))
  · obtain rfl := Option.some.inj h
    exact filled_flat _ _ _ (hhead.append .nil)

theorem mathBlock_flat (h : mathBlock env line later = some result) :
    result.value.1.markupHeight ≤ bound + 3 := by
  unfold mathBlock at h
  dsimp only at h
  split at h
  · exact absurd h (Option.some_ne_none result).symm
  obtain rfl := Option.some.inj h
  have hread : ∀ (fence : Node) ns fences, fence.markupHeight ≤ 0 → UpTo bound ns → UpTo bound fences →
      (enclosing env.source .mathBlock (contentStart env.source line)
        (fence :: (if ns.isEmpty then [] else [Node.markup .mathContent ns]) ++ fences)).markupHeight ≤ bound + 3 := by
    intro fence ns fences hfence hns hfences
    have hcontent : UpTo (bound + 1) (if ns.isEmpty then [] else [Node.markup .mathContent ns]) := by
      split
      · exact .nil
      · exact .single (UpTo.markup hns _)
    refine Nat.le_succ_of_le (filled_flat _ _ _ ?_)
    exact (hcontent.cons (Nat.le_trans hfence (Nat.zero_le _))).append (hfences.weaken (Nat.le_succ _))
  split
  · exact hread _ [] _ (leafOf_flat _ _ _ _) .nil (leaves_upTo _ _ _)
  · exact hread _ _ _ (leafOf_flat _ _ _ _) (he.inline _ _) (leaves_upTo _ _ _)

theorem headingBlock_flat (h : headingBlock env line later = some result) :
    result.value.1.markupHeight ≤ bound + 3 := by
  obtain ⟨level, _, h⟩ := Option.bind_eq_some_iff.mp h
  obtain rfl := Option.some.inj h
  have hread : ∀ marker ns, UpTo bound ns → marker.markupHeight ≤ 0 →
      (filled env.source .heading (contentStart env.source line) line.stop (marker :: ns)).markupHeight ≤ bound + 3 :=
    fun marker ns hns hmarker =>
      Nat.le_trans (filled_flat _ _ _ (hns.cons (Nat.le_trans hmarker (Nat.zero_le _)))) (by omega)
  split
  · exact hread _ _ (he.inline _ _) (leafOf_flat _ _ _ _)
  · exact hread _ [] .nil (leafOf_flat _ _ _ _)

theorem quoteBlock_flat (h : quoteBlock env line later = some result) :
    result.value.1.markupHeight ≤ bound + 3 := by
  unfold quoteBlock at h
  dsimp only at h
  split at h
  · exact absurd h (Option.some_ne_none result).symm
  obtain rfl := Option.some.inj h
  exact Nat.le_trans (filled_flat _ _ _ (he.nested _)) (by omega)

theorem listItem_flat (marker : ListMarker) : (listItem env line marker later).value.1.markupHeight ≤ bound + 1 := by
  unfold listItem
  dsimp only
  rw [value_bind]
  exact filled_flat _ _ _
    (((UpTo.optional (.single (leafOf_flat _ _ _ _))).cons (leafOf_flat _ _ _ _)).append (he.nested _))

theorem listItems_upTo (indent : Nat) (first : ListMarker) (fuel : Nat) (marker : ListMarker) :
    UpTo (bound + 1) (listItems env indent first fuel line marker later).value.1 := by
  induction fuel generalizing line later marker with
  | zero => exact .nil
  | succ fuel ih =>
      have hitem : (listItem env line marker later).value.1.markupHeight ≤ bound + 1 := listItem_flat he marker
      unfold listItems
      dsimp only
      rw [value_bind]
      generalize (listItem env line marker later).value = result at hitem ⊢
      obtain ⟨item, rest⟩ := result
      have hone : UpTo (bound + 1) [item] := .single hitem
      dsimp only
      split
      · exact hone
      · split
        · split
          · exact (ih _).cons hitem
          · exact hone
        · exact hone

theorem listBlock_flat (h : listBlock env line later = some result) :
    result.value.1.markupHeight ≤ bound + 3 := by
  obtain ⟨marker, _, h⟩ := Option.bind_eq_some_iff.mp h
  obtain rfl := Option.some.inj h
  exact Nat.le_succ_of_le (filled_flat _ _ _ (listItems_upTo he _ marker (later.length + 1) marker))

theorem tableCells_upTo (cells : List Span) : UpTo (bound + 1) (tableCells env cells).value := by
  induction cells with
  | nil => exact .nil
  | cons cell cells ih =>
      unfold tableCells
      rw [value_bind]
      refine ih.cons ?_
      unfold tableCell
      dsimp only
      split
      · exact UpTo.markup (he.inline _ _) _
      · exact Nat.le_add_left 1 bound

theorem tableRow_flat (kind : MarkupKind) (line : Span) : (tableRow env kind line).value.markupHeight ≤ bound + 2 := by
  unfold tableRow
  dsimp only
  rw [value_bind]
  refine filled_flat _ _ _ ?_
  intro n hn
  rcases List.mem_append.mp (List.mem_mergeSort.mp hn) with hn | hn
  · obtain ⟨p, _, rfl⟩ := List.mem_map.mp hn
    exact leafOf_flat _ _ _ _
  · exact tableCells_upTo he _ n hn

theorem tableRows_upTo (lines : List Span) : UpTo (bound + 2) (tableRows env lines).value := by
  induction lines with
  | nil => exact .nil
  | cons line lines ih => exact ih.cons (tableRow_flat he _ line)

theorem tableBlock_flat (h : tableBlock env line later = some result) :
    result.value.1.markupHeight ≤ bound + 3 := by
  unfold tableBlock at h
  dsimp only at h
  split at h
  · exact absurd h (Option.some_ne_none result).symm
  split at h
  · exact absurd h (Option.some_ne_none result).symm
  obtain ⟨count, _, h⟩ := Option.bind_eq_some_iff.mp h
  split at h
  · exact absurd h (Option.some_ne_none result).symm
  obtain rfl := Option.some.inj h
  exact filled_flat _ _ _ (((tableRows_upTo he _).cons (leafOf_flat _ _ _ _)).cons (tableRow_flat he _ _))

/-- **A block is only a little higher than what is inside it.** -/
theorem readBlock_upTo : (readBlock env line later).value.1.markupHeight ≤ bound + 3 := by
  unfold readBlock
  cases hfound : blockRules.findSome? fun rule => rule env line later with
  | none => exact Nat.le_trans (UpTo.markup (he.inline _ _) .paragraph) (by omega)
  | some result =>
      obtain ⟨rule, hrule, h⟩ := List.exists_of_findSome?_eq_some hfound
      simp only [blockRules, List.mem_cons, List.not_mem_nil, or_false] at hrule
      rcases hrule with rfl | rfl | rfl | rfl | rfl | rfl | rfl | rfl | rfl | rfl
      · exact commentBlock_flat h
      · exact scriptBlock_flat h
      · exact attributeBlock_flat h
      · exact componentBlock_flat he h
      · exact mathBlock_flat he h
      · exact codeBlock_flat h
      · exact headingBlock_flat he h
      · exact quoteBlock_flat he h
      · exact listBlock_flat he h
      · exact tableBlock_flat he h

theorem readBlocks_upTo (fuel : Nat) (lines : List Span) : UpTo (bound + 3) (readBlocks env fuel lines).value := by
  induction fuel generalizing lines with
  | zero => exact .nil
  | succ fuel ih =>
      cases lines with
      | nil => exact .nil
      | cons line later =>
          unfold readBlocks
          split
          · exact ih later
          · exact (ih _).cons (readBlock_upTo he)

end Rules

/-! ## Documents -/

/-- How high blocks without blocks in them may be. -/
def inlineHeight : Nat := (maxDepth + 1) * regionHeight

/-- How high a document or inline content may be. -/
def documentHeight : Nat := inlineHeight + 3 * (maxDepth + 1) + 1

/-- **Blocks are only so high**, however many lines they have. -/
theorem blockNodes_upTo (src : Source) {levels : Nat} (hlevels : levels ≤ maxDepth + 1) (lines : List Span) :
    UpTo (inlineHeight + 3 * levels) (blockNodes src levels lines).value := by
  induction levels generalizing lines with
  | zero => exact .optional (.single (leafOf_flat _ _ _ _))
  | succ levels ih =>
      have hinline : (levels - 1 + 1) * regionHeight ≤ inlineHeight + 3 * levels :=
        Nat.le_trans (Nat.mul_le_mul_right regionHeight (by omega)) (Nat.le_add_right _ _)
      refine readBlocks_upTo ⟨fun segments mode => ?_, ih (Nat.le_of_succ_le hlevels)⟩ _ _
      exact (inlineNodes_upTo src (levels - 1) segments mode).weaken hinline

theorem branchAt_flat (kind : MarkupKind) (place : Nat) (h : UpTo bound nodes) :
    (Node.branchAt (.markup kind) place nodes).markupHeight ≤ bound + 1 := by
  unfold Node.branchAt
  split
  · exact Nat.le_add_left 1 bound
  · exact UpTo.markup h kind

/-- **The tree of a document is only so high.** -/
theorem readDocument_upTo (src : Source) (s : Span) : (readDocument src s).value.markupHeight ≤ documentHeight :=
  branchAt_flat _ _ (fill_upTo _ _ (blockNodes_upTo src (Nat.le_refl _) _))

/-- **The tree of inline content is only so high.** -/
theorem readInlineContent_upTo (src : Source) (s : Span) :
    (readInlineContent src s).value.markupHeight ≤ documentHeight := by
  refine Nat.le_trans (branchAt_flat _ _ (inlineNodes_upTo src maxDepth _ _)) ?_
  unfold documentHeight inlineHeight
  omega

end ComponentMarkup.Markup
