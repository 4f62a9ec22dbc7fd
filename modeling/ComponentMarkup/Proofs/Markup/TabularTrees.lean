import ComponentMarkup.Proofs.Markup.BlockHeredity
import ComponentMarkup.Proofs.Markup.ReadingTrees
import ComponentMarkup.Proofs.Markup.TableColumns

/-!
# Tables and rows in trees

Only the rule for tables makes tables and rows, so wherever one stands in a document it is laid out in columns.

* `Tabular` — a node that is laid out in columns if it is a table or a row;
* `inlineNodes_tabular`, `tableBlock_tabular` — inline content holds such nodes alone, and so does a table;
* `readDocument_tabular`, `readInlineContent_tabular` — and the trees of whole texts.
-/

namespace ComponentMarkup.Markup

open ComponentMarkup.Text ComponentMarkup.Tree

variable {src : Source} {kind : MarkupKind} {nodes : List Node} {n : Node} {lo hi : Nat} {line : Span}

/-- A node that is a table if its kind says so, or a row of a table if its kind says so. -/
structure Tabular (src : Source) (n : Node) : Prop where
  table (kinds : n.kind = .markup .table) : IsTable n
  row (kinds : n.kind = .markup .tableHeader ∨ n.kind = .markup .tableRow) : IsRow src n

/-- Nothing is said about nodes of other kinds. -/
theorem Tabular.other (h : ∀ kind, n.kind = .markup kind → kind.isTabular = false) : Tabular src n where
  table hkind := absurd (h _ hkind) (by decide)
  row := by
    rintro (hkind | hkind)
    · exact absurd (h _ hkind) (by decide)
    · exact absurd (h _ hkind) (by decide)

/-- Kinds about which there is nothing to say are no kinds of tables. -/
theorem not_tabular (h : kind.isPlain = true) : kind.isTabular = false := by
  simp only [MarkupKind.isPlain, Bool.and_eq_true, Bool.not_eq_true'] at h
  exact h.2.2

/-- A tree all of whose tables and rows are laid out in columns. -/
abbrev TabularTree (src : Source) : Node → Prop :=
  Node.Throughout (Tabular src)

namespace TabularTree

theorem leafOf (hkind : kind.isTabular = false) (a b : Nat) : TabularTree src (leafOf src kind a b) :=
  throughout_leafOf (.other fun _ h => Kind.markup.inj h ▸ hkind)

theorem markup (hkind : kind.isTabular = false) (h : Each (TabularTree src) nodes) :
    TabularTree src (.markup kind nodes) :=
  .intro (Tabular.other fun _ h => Kind.markup.inj h ▸ hkind) h

theorem branchAt (hkind : kind.isTabular = false) (place : Nat) (h : Each (TabularTree src) nodes) :
    TabularTree src (.branchAt (.markup kind) place nodes) := by
  refine Node.Throughout.branchAt (Tabular.other fun other hother => ?_) h
  have hroot : (Node.branchAt (.markup kind) place nodes).kind = .markup kind := by
    unfold Node.branchAt
    split <;> rfl
  exact Kind.markup.inj (hroot.symm.trans hother) ▸ hkind

/-- Nodes among gaps. -/
theorem fill (cursor stop : Nat) (h : Each (TabularTree src) nodes) :
    Each (TabularTree src) (fill src cursor stop nodes) :=
  fill_has (leafOf rfl) (leafOf rfl) cursor stop h

/-- The nodes of a head. -/
theorem head (head : Head) : Each (TabularTree src) (head.nodes src) := by
  intro n hn
  refine (HeadNode.of_mem_nodes hn).mono fun part hpart => .other fun kind hkind => ?_
  obtain ⟨other, hother, hhead⟩ := hpart.isHead
  obtain rfl := Kind.markup.inj (hother.symm.trans hkind)
  revert hhead
  cases other <;> decide

/-- What is left of a body that loses its braces: they become text. -/
theorem unbraced (h : TabularTree src n) : Each (TabularTree src) (unbrace n) := by
  intro m hm
  obtain ⟨child, hchild, rfl⟩ := List.mem_map.mp hm
  split
  · have hbrace := h.child hchild
    cases child with
    | leaf => exact .intro (.other fun _ h => Kind.markup.inj h ▸ rfl) fun _ hc => absurd hc List.not_mem_nil
    | fault => exact hbrace
    | inner => exact .intro (.other fun _ h => Kind.markup.inj h ▸ rfl) fun _ => hbrace.child
  · exact h.child hchild

end TabularTree

/-! ## Inline content -/

/-- The rules for inline content make no tables and no rows. -/
theorem tabular_hereditary {env : Env}
    (hnested : ∀ inner mode, Each (TabularTree env.source) (env.nested inner mode).value) :
    Hereditary env (fun _ => True) (TabularTree env.source) where
  leaf plain := .leafOf (not_tabular plain) _ _
  text := .intro (.other fun _ h => Kind.markup.inj h ▸ rfl) fun _ hc => absurd hc List.not_mem_nil
  space _ := .leafOf rfl _ _
  branch plain parts := .markup (not_tabular plain) parts
  head := .head
  verbatim _ _ := .markup rfl (((Each.optional (.single (.leafOf rfl _ _))).append (.single (.leafOf rfl _ _))).cons
    (.leafOf rfl _ _))
  body parts := .markup rfl ((parts.append (.single (.leafOf rfl _ _))).cons (.leafOf rfl _ _))
  unbraced _ has := has.unbraced
  line _ := .markup rfl (hnested _ _)
  formula _ := .markup rfl (hnested _ _)

theorem readInline_tabular {nested : Span → Mode → Limited (List Node)}
    (hnested : ∀ inner mode, Each (TabularTree src) (nested inner mode).value) (segments : List Span) (mode : Mode) :
    Each (TabularTree src) (readInline src nested segments mode).value := by
  unfold readInline
  dsimp only
  generalize henv : Env.mk src mode ((segments.getLast?.map Span.stop).getD 0) _ nested = env
  obtain rfl : src = env.source := by rw [← henv]
  have hP : Hereditary env (fun _ => True) (TabularTree env.source) :=
    tabular_hereditary (by rw [← henv]; exact hnested)
  have hread := readRegion_has (I := fun _ => True) hP (.start segments) trivial (fun _ _ _ _ _ => trivial)
    (fun _ _ _ _ _ _ => .leafOf rfl _ _) fun _ _ _ _ _ _ _ _ _ => trivial
  refine hP.settle (closeCommands_has (I := fun _ => True) hP (hread _) trivial (fun _ _ => trivial) ?_ _)
  exact fun _ _ _ _ _ _ _ habove => .markup rfl (habove.cons (.leafOf rfl _ _))

/-- **Inline content holds no table out of shape**, however deep regions may be inside each other. -/
theorem inlineNodes_tabular (src : Source) (levels : Nat) (segments : List Span) (mode : Mode) :
    Each (TabularTree src) (inlineNodes src levels segments mode).value := by
  induction levels generalizing segments mode with
  | zero => exact readInline_tabular (fun _ _ => .single (.leafOf rfl _ _)) segments mode
  | succ levels ih => exact readInline_tabular (fun inner mode => ih [inner] mode) segments mode

/-! ## Tables -/

section Tables

variable {env : BlockEnv} (he : env.Sound)
  (hinline : ∀ segments mode, Each (TabularTree env.source) (env.inline segments mode).value)

include hinline

theorem tableCell_tabular (cell : Span) : TabularTree env.source (tableCell env cell).value := by
  unfold tableCell
  dsimp only
  split
  · exact .markup rfl (hinline _ _)
  · exact .intro (.other fun _ h => Kind.markup.inj h ▸ rfl) fun _ hc => absurd hc List.not_mem_nil

include he

theorem tableRow_tabular (hkind : kind = .tableHeader ∨ kind = .tableRow) (hle : line.start ≤ line.stop)
    (hstop : line.stop ≤ env.source.size) (hsome : contentStart env.source line < line.stop) :
    TabularTree env.source (tableRow env kind line).value := by
  refine .intro ⟨fun htable => ?_, fun _ => tableRow_isRow he hkind hle hstop hsome⟩
    (TabularTree.fill _ _ fun n hn => ?_)
  · rcases hkind with rfl | rfl
    · exact absurd (Kind.markup.inj htable) (by decide)
    · exact absurd (Kind.markup.inj htable) (by decide)
  · rw [tableCells_eq, List.mem_mergeSort, List.mem_append] at hn
    rcases hn with hn | hn
    · obtain ⟨place, _, rfl⟩ := List.mem_map.mp hn
      exact .leafOf rfl _ _
    · obtain ⟨cell, _, rfl⟩ := List.mem_map.mp hn
      exact tableCell_tabular hinline cell

theorem tableRows_tabular {lines : List Span} (hlines : Lines lo hi lines) (hhi : hi ≤ env.source.size)
    (hsome : ∀ l ∈ lines, isBlankLine env.source l = false) :
    Each (TabularTree env.source) (tableRows env lines).value := by
  induction lines generalizing lo with
  | nil => exact .nil
  | cons line lines ih =>
      have hstop : line.stop ≤ env.source.size := Nat.le_trans hlines.2.2.le hhi
      have hlt := contentStart_lt hstop (hsome line List.mem_cons_self)
      exact (ih hlines.2.2 fun l hl => hsome l (List.mem_cons_of_mem _ hl)).cons
        (tableRow_tabular he hinline (.inr rfl) hlines.2.1 hstop hlt)

/-- **A table holds rows that are laid out in columns**, and is laid out itself. -/
theorem tableBlock_tabular {later : List Span} {result : Limited (Node × List Span)}
    (hlines : Lines lo hi (line :: later)) (hhi : hi ≤ env.source.size)
    (h : tableBlock env line later = some result) : TabularTree env.source result.value.1 := by
  have htable := tableBlock_isTable he hlines hhi h
  have hstop : line.stop ≤ env.source.size := Nat.le_trans hlines.2.2.le hhi
  unfold tableBlock at h
  dsimp only at h
  cases later with
  | nil => exact absurd h (by simp)
  | cons delimiter rest =>
      dsimp only at h
      split at h
      · exact absurd h (by simp)
      rename_i hpipe
      rw [Bool.not_eq_true', Bool.not_eq_false, List.contains_iff_mem] at hpipe
      obtain ⟨count, _, h⟩ := Option.bind_eq_some_iff.mp h
      split at h
      · exact absurd h (by simp)
      obtain rfl := Option.some.inj h
      have hlt : contentStart env.source line < line.stop := by
        have hsome := List.length_pos_of_mem hpipe
        rw [length_unindented hstop] at hsome
        omega
      obtain ⟨hbody, hrest⟩ := hlines.2.2.2.2.takeWhile fun l => !isBlankLine env.source l &&
        (unindented env.source l).contains '|' && !startsBlock env.source l
      have hrows := tableRows_tabular he hinline hbody (Nat.le_trans hrest.le hhi) fun l hl => by
        have hrow := List.mem_takeWhile_imp hl
        rw [Bool.and_eq_true, Bool.and_eq_true, Bool.not_eq_true'] at hrow
        exact hrow.1.1
      refine .intro ⟨fun _ => htable, ?_⟩ (TabularTree.fill _ _ ((hrows.cons (.leafOf rfl _ _)).cons
        (tableRow_tabular he hinline (.inl rfl) hlines.2.1 hstop hlt)))
      rintro (hkind | hkind)
      · exact absurd (Kind.markup.inj hkind) (by decide)
      · exact absurd (Kind.markup.inj hkind) (by decide)

end Tables

/-! ## Documents -/

/-- **Blocks hold no table out of shape**, however deep they may nest. -/
theorem blockNodes_tabular (levels : Nat) {lines : List Span} (hlines : Lines lo hi lines) (hhi : hi ≤ src.size) :
    Each (TabularTree src) (blockNodes src levels lines).value := by
  induction levels generalizing lo hi lines with
  | zero => exact .optional (.single (.leafOf rfl _ _))
  | succ levels ih =>
      have hsound : BlockEnv.Sound
          { source := src, inline := inlineNodes src (levels - 1), nested := blockNodes src levels } :=
        ⟨fun mode hregion hto => inlineNodes_run (levels - 1) hregion hto mode, blockNodes_spread levels⟩
      refine readBlocks_has (P := TabularTree src) ?_ hhi hsound lines.length hlines
      exact
        { leaf := fun plain => .leafOf plain _ _
          branch := .markup
          inline := inlineNodes_tabular src (levels - 1)
          nested := ih
          table := tableBlock_tabular hsound (inlineNodes_tabular src (levels - 1)) }

/-- **The tables of a document are tables**, and its rows are rows, whatever the text. -/
theorem readDocument_tabular {s : Span} (hle : s.start ≤ s.stop) (hstop : s.stop ≤ src.size) :
    TabularTree src (readDocument src s).value :=
  .branchAt rfl _ (TabularTree.fill _ _ (blockNodes_tabular (maxDepth + 1) (lineSpans_region hle hstop).lines hstop))

/-- Inline content has none. -/
theorem readInlineContent_tabular (src : Source) (s : Span) : TabularTree src (readInlineContent src s).value :=
  .branchAt rfl _ (inlineNodes_tabular src maxDepth _ _)

end ComponentMarkup.Markup
