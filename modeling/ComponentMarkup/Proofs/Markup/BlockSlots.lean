import ComponentMarkup.Proofs.Markup.FillTiling
import ComponentMarkup.Proofs.Markup.InlineSlots
import ComponentMarkup.Proofs.Markup.LineBounds

/-!
# Slots in blocks

Scripts, attribute values and braced bodies of components are slots of blocks.  Each stands behind a mark of its
block, which covers at least one character: a percent sign, a bar, a brace.  So a slot of a document is smaller
than the document, and what is read for it is smaller again.

* `readBlock_guarded` — every block is guarded;
* `readDocument_guarded`, `readInlineContent_guarded` — so are the trees of documents and of inline content.
-/

namespace ComponentMarkup.Markup

open ComponentMarkup.Text ComponentMarkup.Tree ComponentMarkup.Document

variable {src : Source} {kind : MarkupKind} {nodes : List Node}

/-! ## Gaps -/

theorem gapLeaves_guarded (start place : Nat) (cs : List Char) : AllGuarded (gapLeaves src start place cs) := by
  have hspace : AllGuarded (if start < place then [leafOf src .space start place] else []) :=
    .optional (.single (.leafOf rfl))
  induction cs generalizing start place with
  | nil => exact hspace
  | cons c cs ih =>
      unfold gapLeaves
      split
      · refine hspace.append (.cons (.leafOf rfl) (ih _ _ ?_))
        exact .optional (.single (.leafOf rfl))
      · exact ih _ _ (.optional (.single (.leafOf rfl)))

theorem gap_guarded (start stop : Nat) : AllGuarded (gap src start stop) :=
  .optional (gapLeaves_guarded start start _)

/-- Filling gaps adds guarded nodes only. -/
theorem fill_slots (cursor stop : Nat) (h : SlotsOrGuarded nodes) :
    SlotsOrGuarded (fill src cursor stop nodes) := by
  induction nodes generalizing cursor with
  | nil => exact (gap_guarded cursor stop).weaken
  | cons n nodes ih =>
      have hone : SlotsOrGuarded [n] := by
        intro m hm
        obtain rfl := List.mem_singleton.mp hm
        exact h m List.mem_cons_self
      have hrest := ih (max cursor n.stop) fun m hm => h m (List.mem_cons_of_mem _ hm)
      exact (gap_guarded cursor n.start).weaken.append (hone.append hrest)

theorem fill_guarded (cursor stop : Nat) (h : AllGuarded nodes) : AllGuarded (fill src cursor stop nodes) := by
  induction nodes generalizing cursor with
  | nil => exact gap_guarded cursor stop
  | cons n nodes ih =>
      have hrest := ih (max cursor n.stop) fun m hm => h m (List.mem_cons_of_mem _ hm)
      exact (gap_guarded cursor n.start).append (hrest.cons (h n List.mem_cons_self))

/-- A branch with its gaps filled, over guarded nodes. -/
theorem filled_guarded (hkind : choice? (.markup kind) = none) (start stop : Nat) (h : AllGuarded nodes) :
    Guarded (filled src kind start stop nodes) :=
  .markup hkind (fill_guarded start stop h)

/-- A branch with its gaps filled, over slots and a mark that guards them. -/
theorem filled_slots (hkind : choice? (.markup kind) = none) (hblock : kind ≠ .contentBlock) (start stop : Nat)
    (h : SlotsOrGuarded nodes) {mark : Node} (hmem : mark ∈ nodes) (hmark : choice? mark.kind = none)
    (hlt : mark.start < mark.stop) : Guarded (filled src kind start stop nodes) :=
  .withSlots hkind hblock (fill_slots start stop h) (mem_fill start stop hmem) hmark hlt

/-! ## Rules -/

/-- What is relied on while blocks are read: inline content and the blocks inside a block are guarded. -/
structure BlockEnv.Guarded (env : BlockEnv) : Prop where
  inline : ∀ segments mode, AllGuarded (env.inline segments mode).value
  nested : ∀ lines, AllGuarded (env.nested lines).value

/-- A leaf on each of several lines. -/
theorem leaves_guarded (hkind : choice? (.markup kind) = none) (lines : List Span) (first last : Span → Nat) :
    AllGuarded (lines.map fun l => leafOf src kind (first l) (last l)) := by
  intro n hn
  obtain ⟨l, _, rfl⟩ := List.mem_map.mp hn
  exact .leafOf hkind

theorem bodyLeaf_slots (hkind : choice? (.markup kind) ≠ none) (body : List Span) :
    SlotsOrGuarded (bodyLeaf src kind body) := by
  unfold bodyLeaf
  split
  · exact .slot hkind
  · exact AllGuarded.weaken .nil

theorem bodyLeaf_guarded (hkind : choice? (.markup kind) = none) (body : List Span) :
    AllGuarded (bodyLeaf src kind body) := by
  unfold bodyLeaf
  split
  · exact .single (.leafOf hkind)
  · exact .nil

section Rules

variable {env : BlockEnv} {line : Span} {later : List Span} {result : Limited (Node × List Span)}

theorem commentBlock_guarded (h : commentBlock env line later = some result) : Guarded result.value.1 := by
  unfold commentBlock at h
  dsimp only at h
  split at h
  · obtain rfl := Option.some.inj h
    exact filled_guarded rfl _ _ (leaves_guarded rfl _ _ _)
  · exact absurd h (by simp)

/-- A script stands behind a percent sign or a fence. -/
theorem scriptBlock_guarded (h : scriptBlock env line later = some result) : Guarded result.value.1 := by
  unfold scriptBlock at h
  dsimp only at h
  split at h
  · exact absurd h (by simp)
  rename_i hpercent
  simp only [bne_iff_ne, ne_eq, Decidable.not_not] at hpercent
  rw [unindented_eq] at hpercent
  have hlt := env.source.lt_of_head?_slice hpercent
  split at h
  · obtain rfl := Option.some.inj h
    refine filled_slots rfl (by decide) _ _ (.leaf rfl ?_) List.mem_cons_self rfl hlt
    exact (bodyLeaf_slots (by decide) _).append (leaves_guarded rfl _ _ _).weaken
  · obtain rfl := Option.some.inj h
    refine filled_slots rfl (by decide) _ _ (.leaf rfl ?_) List.mem_cons_self rfl
      (Nat.lt_succ_self (contentStart env.source line))
    split
    · exact .slot (by decide)
    · exact AllGuarded.weaken .nil

/-- The value of an attribute stands behind its bar. -/
theorem attributeBlock_guarded (h : attributeBlock env line later = some result) : Guarded result.value.1 := by
  obtain ⟨width, _, h⟩ := Option.bind_eq_some_iff.mp h
  dsimp only at h
  generalize contentStart env.source line = start at h
  have hhead : ∀ value, SlotsOrGuarded value → Guarded (enclosing env.source .attributeLine start
      ([leafOf env.source .attributeMark start (start + 1),
        leafOf env.source .attributeKey (start + 2) (start + 2 + width),
        leafOf env.source .colon (start + 2 + width) (start + 2 + width + 1)] ++ value)) := by
    intro value hvalue
    exact filled_slots rfl (by decide) _ _ (.leaf rfl (.leaf rfl (.leaf rfl hvalue))) List.mem_cons_self rfl
      (Nat.lt_succ_self start)
  split at h
  · obtain rfl := Option.some.inj h
    refine hhead _ ?_
    split
    · exact .slot (by decide)
    · exact AllGuarded.weaken .nil
  · obtain rfl := Option.some.inj h
    exact hhead _ (.slot (by decide))

theorem codeBlock_guarded (h : codeBlock env line later = some result) : Guarded result.value.1 := by
  obtain ⟨⟨mark, width⟩, _, h⟩ := Option.bind_eq_some_iff.mp h
  obtain rfl := Option.some.inj h
  refine filled_guarded rfl _ _ ?_
  exact (((Each.optional (.single (.leafOf rfl))).cons (.leafOf rfl)).append (bodyLeaf_guarded rfl _)).append
    (leaves_guarded rfl _ _ _)

variable (he : env.Guarded)

include he

theorem componentBody_guarded : AllGuarded (componentBody env line later).value.1 := by
  unfold componentBody
  dsimp only
  split
  · exact .nil
  · rw [value_bind]
    split
    · exact .nil
    · exact .single (filled_guarded rfl _ _ (he.nested _))

theorem componentLine_guarded (start stop : Nat) : AllGuarded (componentLine env start stop).value := by
  unfold componentLine
  dsimp only
  split
  · exact .single (.markup rfl (he.inline _ _))
  · exact .nil

/-- The braced body of a component stands behind its brace, and the expressions of its head stand in brackets. -/
theorem componentBlock_guarded (h : componentBlock env line later = some result) : Guarded result.value.1 := by
  unfold componentBlock at h
  dsimp only at h
  split at h
  · exact absurd h (by simp)
  obtain ⟨⟨head, form⟩, _, h⟩ := Option.bind_eq_some_iff.mp h
  have hhead : AllGuarded (head.nodes env.source) := head.nodes_guarded
  dsimp only at h
  split at h
  · obtain ⟨rest, _, h⟩ := Option.bind_eq_some_iff.mp h
    obtain rfl := Option.some.inj h
    exact filled_guarded rfl _ _ (hhead.append (.single (verbatimNode_guarded _ _)))
  · obtain ⟨rest, _, h⟩ := Option.bind_eq_some_iff.mp h
    obtain rfl := Option.some.inj h
    refine filled_slots rfl (by decide) _ _ (hhead.weaken.append (.append (.leaf rfl ?_) (.single (.leafOf rfl))))
      (List.mem_append_right _ List.mem_cons_self) rfl (Nat.lt_succ_self head.stop)
    split
    · exact .slot (by decide)
    · exact AllGuarded.weaken .nil
  · obtain rfl := Option.some.inj h
    refine filled_guarded rfl _ _ (hhead.append ?_)
    exact ((componentLine_guarded he _ _).cons (.leafOf rfl)).append (componentBody_guarded he)
  · obtain rfl := Option.some.inj h
    exact filled_guarded rfl _ _ (hhead.append .nil)

theorem mathBlock_guarded (h : mathBlock env line later = some result) : Guarded result.value.1 := by
  unfold mathBlock at h
  dsimp only at h
  split at h
  · exact absurd h (by simp)
  obtain rfl := Option.some.inj h
  have hread : ∀ ns fences, AllGuarded ns → AllGuarded fences → Guarded (enclosing env.source .mathBlock
      (contentStart env.source line) (leafOf env.source .mathDelim (contentStart env.source line)
        (contentStart env.source line + 2) ::
          (if ns.isEmpty then [] else [Node.markup .mathContent ns]) ++ fences)) := by
    intro ns fences hns hfences
    refine filled_guarded rfl _ _ ((Each.cons (.leafOf rfl) ?_).append hfences)
    split
    · exact .nil
    · exact .single (.markup rfl hns)
  split
  · exact hread [] _ .nil (leaves_guarded rfl _ _ _)
  · exact hread _ _ (he.inline _ _) (leaves_guarded rfl _ _ _)

theorem headingBlock_guarded (h : headingBlock env line later = some result) : Guarded result.value.1 := by
  obtain ⟨level, _, h⟩ := Option.bind_eq_some_iff.mp h
  obtain rfl := Option.some.inj h
  have hread : ∀ ns, AllGuarded ns → Guarded (filled env.source .heading (contentStart env.source line) line.stop
      (leafOf env.source .headingMarker (contentStart env.source line) (contentStart env.source line + level) ::
        ns)) :=
    fun ns hns => filled_guarded rfl _ _ (hns.cons (.leafOf rfl))
  split
  · exact hread _ (he.inline _ _)
  · exact hread [] .nil

theorem quoteBlock_guarded (h : quoteBlock env line later = some result) : Guarded result.value.1 := by
  unfold quoteBlock at h
  dsimp only at h
  split at h
  · exact absurd h (by simp)
  obtain rfl := Option.some.inj h
  exact filled_guarded rfl _ _ (he.nested _)

theorem listItem_guarded (marker : ListMarker) : Guarded (listItem env line marker later).value.1 := by
  unfold listItem
  dsimp only
  rw [value_bind]
  exact filled_guarded rfl _ _
    (((Each.optional (.single (.leafOf rfl))).cons (.leafOf rfl)).append (he.nested _))

theorem listItems_guarded (indent : Nat) (first : ListMarker) (fuel : Nat) (marker : ListMarker) :
    AllGuarded (listItems env indent first fuel line marker later).value.1 := by
  induction fuel generalizing line later marker with
  | zero => exact .nil
  | succ fuel ih =>
      have hitem : Guarded (listItem env line marker later).value.1 := listItem_guarded he marker
      unfold listItems
      dsimp only
      rw [value_bind]
      generalize (listItem env line marker later).value = result at hitem ⊢
      obtain ⟨item, rest⟩ := result
      have hone : AllGuarded [item] := .single hitem
      dsimp only
      split
      · exact hone
      · split
        · split
          · exact (ih _).cons hitem
          · exact hone
        · exact hone

theorem listBlock_guarded (h : listBlock env line later = some result) : Guarded result.value.1 := by
  obtain ⟨marker, _, h⟩ := Option.bind_eq_some_iff.mp h
  obtain rfl := Option.some.inj h
  have hkind : choice? (.markup marker.listKind) = none := by
    unfold ListMarker.listKind
    split <;> rfl
  exact filled_guarded hkind _ _ (listItems_guarded he (indentOf env.source line) marker (later.length + 1) marker)

theorem tableCells_guarded (cells : List Span) : AllGuarded (tableCells env cells).value := by
  induction cells with
  | nil => exact .nil
  | cons cell cells ih =>
      unfold tableCells
      rw [value_bind]
      refine ih.cons ?_
      unfold tableCell
      dsimp only
      split
      · exact .markup rfl (he.inline _ _)
      · exact .branch rfl rfl (fun child hchild => absurd hchild List.not_mem_nil)
          fun child hchild => absurd hchild List.not_mem_nil

theorem tableRow_guarded (hkind : choice? (.markup kind) = none) (line : Span) :
    Guarded (tableRow env kind line).value := by
  unfold tableRow
  dsimp only
  rw [value_bind]
  refine filled_guarded hkind _ _ ?_
  intro n hn
  rcases List.mem_append.mp (List.mem_mergeSort.mp hn) with hn | hn
  · obtain ⟨p, _, rfl⟩ := List.mem_map.mp hn
    exact .leafOf rfl
  · exact tableCells_guarded he _ n hn

theorem tableRows_guarded (lines : List Span) : AllGuarded (tableRows env lines).value := by
  induction lines with
  | nil => exact .nil
  | cons line lines ih => exact ih.cons (tableRow_guarded he rfl line)

theorem tableBlock_guarded (h : tableBlock env line later = some result) : Guarded result.value.1 := by
  unfold tableBlock at h
  dsimp only at h
  split at h
  · exact absurd h (by simp)
  split at h
  · exact absurd h (by simp)
  obtain ⟨count, _, h⟩ := Option.bind_eq_some_iff.mp h
  split at h
  · exact absurd h (by simp)
  obtain rfl := Option.some.inj h
  exact filled_guarded rfl _ _ (((tableRows_guarded he _).cons (.leafOf rfl)).cons (tableRow_guarded he rfl _))

/-- **Every block is guarded.** -/
theorem readBlock_guarded : Guarded (readBlock env line later).value.1 := by
  unfold readBlock
  cases hfound : blockRules.findSome? fun rule => rule env line later with
  | none => exact .markup rfl (he.inline _ _)
  | some result =>
      obtain ⟨rule, hrule, h⟩ := List.exists_of_findSome?_eq_some hfound
      simp only [blockRules, List.mem_cons, List.not_mem_nil, or_false] at hrule
      rcases hrule with rfl | rfl | rfl | rfl | rfl | rfl | rfl | rfl | rfl | rfl
      · exact commentBlock_guarded h
      · exact scriptBlock_guarded h
      · exact attributeBlock_guarded h
      · exact componentBlock_guarded he h
      · exact mathBlock_guarded he h
      · exact codeBlock_guarded h
      · exact headingBlock_guarded he h
      · exact quoteBlock_guarded he h
      · exact listBlock_guarded he h
      · exact tableBlock_guarded he h

theorem readBlocks_guarded (fuel : Nat) (lines : List Span) : AllGuarded (readBlocks env fuel lines).value := by
  induction fuel generalizing lines with
  | zero => exact .nil
  | succ fuel ih =>
      cases lines with
      | nil => exact .nil
      | cons line later =>
          unfold readBlocks
          split
          · exact ih later
          · exact (ih _).cons (readBlock_guarded he)

end Rules

/-! ## Documents -/

/-- Blocks are guarded, however deep they may nest. -/
theorem blockNodes_guarded (src : Source) (levels : Nat) (lines : List Span) :
    AllGuarded (blockNodes src levels lines).value := by
  induction levels generalizing lines with
  | zero => exact .optional (.single (.leafOf rfl))
  | succ levels ih => exact readBlocks_guarded ⟨inlineNodes_guarded src (levels - 1), ih⟩ _ _

theorem branchAt_guarded (hkind : choice? (.markup kind) = none) (place : Nat) (h : AllGuarded nodes) :
    Guarded (.branchAt (.markup kind) place nodes) := by
  unfold Node.branchAt
  split
  · exact .branch hkind rfl (fun child hchild => absurd hchild List.not_mem_nil)
      fun child hchild => absurd hchild List.not_mem_nil
  · exact .markup hkind h

/-- **The tree of a document is guarded.** -/
theorem readDocument_guarded (src : Source) (s : Span) : Guarded (readDocument src s).value :=
  branchAt_guarded rfl _ (fill_guarded _ _ (blockNodes_guarded src _ _))

/-- **The tree of inline content is guarded.** -/
theorem readInlineContent_guarded (src : Source) (s : Span) : Guarded (readInlineContent src s).value :=
  branchAt_guarded rfl _ (inlineNodes_guarded src _ _ _)

end ComponentMarkup.Markup
