import ComponentMarkup.Proofs.Markup.DelimiterRows
import ComponentMarkup.Proofs.Markup.TableTiling
import ComponentMarkup.Proofs.Text.Slices
import ComponentMarkup.Proofs.Tree.Within

/-!
# The columns of tables

A row keeps one node for each of its unescaped pipes and one for each of its cells, though it sorts them all by their
places: pipes and cells are in order by themselves, and sorting keeps what is in order.  The header of a table is only
read as one if it has as many cells as the delimiter row, and the alignments are taken from the cells of that row.

* `IsRow` — a row with its pipes and cells;
* `tableRow_isRow` — a line is read as one;
* `IsTable` — a table whose header has a cell for every alignment;
* `tableBlock_isTable` — the rule for tables reads one.
-/

namespace ComponentMarkup.Tree

/-- The nodes of a run are in order. -/
theorem Run.in_order {holds : Text.Span → String → Prop} (hj : Joinable holds) {a b : Nat} {ns : List Node}
    (h : Run holds a b ns) : ns.Pairwise fun m n => m.stop ≤ n.start := by
  induction ns generalizing a with
  | nil => exact .nil
  | cons n ns ih =>
      obtain ⟨-, -, hrest⟩ := h.of_cons
      exact .cons (fun m hm => hrest.le_start hj hm) (ih hrest)

/-- The children of a tree are in order. -/
theorem Node.Tiles.in_order {holds : Text.Span → String → Prop} (hj : Joinable holds) {n : Node} (h : n.Tiles holds) :
    n.children.Pairwise fun a b => a.stop ≤ b.start := by
  cases h with
  | leaf | fault => exact .nil
  | inner chain _ _ parts => exact Run.in_order hj ⟨chain, parts⟩

end ComponentMarkup.Tree

namespace ComponentMarkup.Markup

open ComponentMarkup.Text ComponentMarkup.Tree ComponentMarkup.Document

variable {src : Source} {line : Span} {kind : MarkupKind} {nodes : List Node}

/-! ## Rows and tables -/

/-- A cell over a stretch of a row: it covers the stretch without the white space at its ends, or nothing in it. -/
def CellOver (src : Source) (cell : Node) (stretch : Span) : Prop :=
  let content := trimmed src stretch.start stretch.stop
  if content.start < content.stop then cell.span = content
  else stretch.start ≤ cell.start ∧ cell.start = cell.stop ∧ cell.stop ≤ stretch.stop

/-- **A row of a table.**  Its pipes are those of its text that do not stand right behind a backslash, its cells stand
over the stretches between them, and all of its nodes are in order and do not overlap. -/
structure IsRow (src : Source) (row : Node) : Prop where
  pipes : row.children.filter (·.isMarkup .tablePipe) =
    (pipePlaces src row.start row.stop).map fun p => leafOf src .tablePipe p (p + 1)
  cells : ∃ cells, view? row = some (.tableRow cells) ∧ List.Forall₂ (CellOver src) cells (cellSpans src row.span)
  apart : row.children.Pairwise fun a b => a.stop ≤ b.start

/-- **A table.**  Each of its alignments is the one written in a cell of the delimiter row, in order, and its header has
as many cells as there are alignments, of which there is at least one. -/
def IsTable (table : Node) : Prop :=
  ∃ header rows aligns cells delimiter, view? table = some (.table (some header) rows aligns) ∧
    view? header = some (.tableRow cells) ∧ table.child? .tableDelimiter = some delimiter ∧
    List.Forall₂ Aligns (delimiterCells delimiter.text.toList) aligns ∧
    cells.length = aligns.length ∧ 1 ≤ aligns.length

/-! ## Nodes among gaps -/

/-- The leaves of gaps are white space and marks of quotations. -/
theorem gapLeaves_kinds (start place : Nat) (cs : List Char) :
    ∀ n ∈ gapLeaves src start place cs, n.kind = .markup .space ∨ n.kind = .markup .quoteMarker := by
  have hspace : ∀ a b, ∀ n ∈ (if a < b then [leafOf src .space a b] else []),
      n.kind = .markup .space ∨ n.kind = .markup .quoteMarker := by
    intro a b n hn
    split at hn
    · obtain rfl := List.mem_singleton.mp hn
      exact .inl rfl
    · exact absurd hn List.not_mem_nil
  induction cs generalizing start place with
  | nil => exact hspace start place
  | cons c cs ih =>
      intro n hn
      unfold gapLeaves at hn
      split at hn
      · rcases List.mem_append.mp hn with hn | hn
        · exact hspace _ _ n hn
        · rcases List.mem_cons.mp hn with rfl | hn
          · exact .inr rfl
          · exact ih _ _ n hn
      · exact ih _ _ n hn

/-- A gap holds no node of another kind. -/
theorem filter_gap (hspace : kind ≠ .space) (hquote : kind ≠ .quoteMarker) (start stop : Nat) :
    (gap src start stop).filter (·.isMarkup kind) = [] := by
  refine List.filter_eq_nil_iff.mpr fun n hn => ?_
  unfold gap at hn
  split at hn
  · rw [Node.isMarkup, beq_iff_eq]
    rcases gapLeaves_kinds _ _ _ n hn with h | h
    · rw [h]
      exact fun heq => hspace (Kind.markup.inj heq).symm
    · rw [h]
      exact fun heq => hquote (Kind.markup.inj heq).symm
  · exact absurd hn List.not_mem_nil

/-- Filling gaps adds no nodes of another kind. -/
theorem filter_fill (src : Source) (hspace : kind ≠ .space) (hquote : kind ≠ .quoteMarker) (cursor stop : Nat)
    (nodes : List Node) :
    (fill src cursor stop nodes).filter (·.isMarkup kind) = nodes.filter (·.isMarkup kind) := by
  induction nodes generalizing cursor with
  | nil => exact filter_gap hspace hquote cursor stop
  | cons n nodes ih =>
      rw [fill, List.filter_append, filter_gap hspace hquote, List.nil_append, List.filter_cons, List.filter_cons, ih]

/-- The first child of a kind is the first node of that kind, whatever fills the gaps. -/
theorem child?_filled {outer : MarkupKind} (hspace : kind ≠ .space) (hquote : kind ≠ .quoteMarker) (start stop : Nat)
    (nodes : List Node) : (filled src outer start stop nodes).child? kind = nodes.find? (·.isMarkup kind) := by
  rw [← List.head?_filter, ← filter_fill src hspace hquote start stop, List.head?_filter]
  rfl

/-- Sorting keeps the order of nodes that are in order by themselves. -/
theorem filter_mergeSort {sorted : List Node} (h : sorted.Pairwise fun a b => before a b)
    (hsorted : nodes.filter (·.isMarkup kind) = sorted) :
    (nodes.mergeSort before).filter (·.isMarkup kind) = sorted := by
  have htrans : ∀ a b c : Node, before a b → before b c → before a c := by
    intro a b c hab hbc
    simp only [before, Bool.or_eq_true, Bool.and_eq_true, decide_eq_true_eq, beq_iff_eq] at hab hbc ⊢
    omega
  have htotal : ∀ a b : Node, before a b || before b a := by
    intro a b
    simp only [before, Bool.or_eq_true, Bool.and_eq_true, decide_eq_true_eq, beq_iff_eq]
    omega
  have hsub : sorted.Sublist (nodes.mergeSort before) :=
    List.sublist_mergeSort htrans htotal h (hsorted ▸ List.filter_sublist)
  have hkept := hsub.filter (·.isMarkup kind)
  have hlength := ((List.mergeSort_perm nodes before).filter (·.isMarkup kind)).length_eq
  rw [hsorted] at hlength
  have hself : sorted.filter (·.isMarkup kind) = sorted := by
    rw [← hsorted, List.filter_filter]
    simp only [Bool.and_self]
  rw [hself] at hkept
  exact (hkept.eq_of_length hlength.symm).symm

/-! ## The content of lines -/

/-- What is left of a line without its indentation is not indented. -/
theorem contentStart_content (src : Source) (line : Span) :
    contentStart src ⟨contentStart src line, line.stop⟩ = contentStart src line := by
  have hnone : indentOf src ⟨contentStart src line, line.stop⟩ = 0 := by
    show (List.takeWhile isBlank (src.slice (contentStart src line) line.stop)).length = 0
    rw [← unindented_eq, unindented]
    have hnot := List.head?_dropWhile_not isBlank (lineChars src line)
    cases hrest : (lineChars src line).dropWhile isBlank with
    | nil => rfl
    | cons c cs =>
        rw [hrest] at hnot
        rw [List.takeWhile_cons_of_neg (Bool.eq_false_iff.mp hnot)]
        rfl
  rw [contentStart, hnone, Nat.add_zero]

/-- So it has the same content. -/
theorem unindented_content (src : Source) (line : Span) :
    unindented src ⟨contentStart src line, line.stop⟩ = unindented src line := by
  rw [unindented_eq, contentStart_content, ← unindented_eq]

/-- And the same cells. -/
theorem cellSpans_content (src : Source) (line : Span) :
    cellSpans src ⟨contentStart src line, line.stop⟩ = cellSpans src line := by
  unfold cellSpans
  rw [contentStart_content, unindented_content]

/-- All unescaped pipes of a line stand behind its indentation. -/
theorem pipePlaces_content (hle : line.start ≤ line.stop) (hstop : line.stop ≤ src.size) :
    pipePlaces src (contentStart src line) line.stop = pipePlaces src line.start line.stop := by
  have hcontent : (⟨contentStart src line, line.stop⟩ : Span).start ≤ line.stop := (contentStart_bounds hle hstop).2
  have hinner := pipePlaces_line hcontent hstop
  rw [contentStart_content, rowStop, contentStart_content, unindented_content] at hinner
  rw [pipePlaces_line hle hstop]
  exact hinner

/-- A leaf over the content of a line has the text of the line without the white space around it. -/
theorem rowText (src : Source) (line : Span) :
    (src.text ⟨contentStart src line, rowStop src line⟩).toList = trimEnd (unindented src line) := by
  have hprefix : trimEnd (unindented src line) <+: unindented src line := by
    have hsuffix := List.dropWhile_suffix isWhitespace (l := (unindented src line).reverse)
    rw [← List.reverse_prefix, List.reverse_reverse] at hsuffix
    exact hsuffix
  obtain ⟨back, hback⟩ := hprefix
  rw [Source.text, String.toList_ofList, rowStop]
  exact src.slice_prefix (unindented_eq.symm.trans hback.symm)

/-! ## Reading rows -/

section Rows

variable {env : BlockEnv} (he : env.Sound)

include he

/-- The node of a cell stands over its stretch. -/
theorem tableCell_over {cell : Span} (hle : cell.start ≤ cell.stop) (hstop : cell.stop ≤ env.source.size) :
    CellOver env.source (tableCell env cell).value cell := by
  obtain ⟨hstart, hend⟩ := trimmed_bounds env.source hle hstop
  unfold CellOver tableCell
  dsimp only
  generalize trimmed env.source cell.start cell.stop = content at hstart hend
  split
  · rename_i hlt
    have hrun := he.inline .full (Region.single (Nat.le_of_lt hlt)) (Nat.le_trans hend hstop)
    exact hrun.branch_span (.markup .tableCell) (hrun.ne_nil hlt)
  · refine ⟨?_, rfl, ?_⟩
    · show cell.start ≤ min content.start cell.stop
      omega
    · show min content.start cell.stop ≤ cell.stop
      omega

omit he in
/-- The nodes of cells are cells. -/
theorem tableCell_kind (cell : Span) : (tableCell env cell).value.kind = .markup .tableCell := by
  unfold tableCell
  dsimp only
  split <;> rfl

/-- A row spans the content of its line. -/
theorem tableRow_span (kind : MarkupKind) (hle : line.start ≤ line.stop) (hstop : line.stop ≤ env.source.size)
    (hsome : contentStart env.source line < line.stop) :
    (tableRow env kind line).value.Fits env.source ∧
      (tableRow env kind line).value.span = ⟨contentStart env.source line, line.stop⟩ := by
  obtain ⟨hstart, hfits, hend⟩ := (tableRow_run he hle hstop hsome : Run env.source.Holds _ _
    [(tableRow env kind line).value]).of_cons
  exact ⟨hfits, congrArg₂ Span.mk hstart hend.chain⟩

/-- **A line is read as a row** with all of its pipes and cells. -/
theorem tableRow_isRow (hkind : kind = .tableHeader ∨ kind = .tableRow) (hle : line.start ≤ line.stop)
    (hstop : line.stop ≤ env.source.size) (hsome : contentStart env.source line < line.stop) :
    IsRow env.source (tableRow env kind line).value := by
  obtain ⟨hpairs, hcells⟩ := cellSpans_bounds hle hstop
  obtain ⟨hfits, hspan⟩ := tableRow_span he kind hle hstop hsome
  have hcell : ∀ cell ∈ cellSpans env.source line, CellOver env.source (tableCell env cell).value cell ∧
      cell.start ≤ (tableCell env cell).value.start ∧ (tableCell env cell).value.start ≤
        (tableCell env cell).value.stop ∧ (tableCell env cell).value.stop ≤ cell.stop := by
    intro cell hmem
    obtain ⟨_, hcellLe, hcellStop, _⟩ := hcells cell hmem
    obtain ⟨hcellFits, hfrom, hto⟩ := tableCell_fits he hcellLe (Nat.le_trans hcellStop hstop)
    exact ⟨tableCell_over he hcellLe (Nat.le_trans hcellStop hstop), hfrom, hcellFits.le, hto⟩
  -- the nodes of each kind, before they are sorted and after
  have hnodes : ∀ kind', kind' ≠ .space → kind' ≠ .quoteMarker → ∀ sorted : List Node,
      sorted.Pairwise (fun a b => before a b) →
      (((pipePlaces env.source line.start line.stop).map fun p => leafOf env.source .tablePipe p (p + 1)) ++
        (tableCells env (cellSpans env.source line)).value).filter (·.isMarkup kind') = sorted →
      (tableRow env kind line).value.children.filter (·.isMarkup kind') = sorted := by
    intro kind' hspace hquote sorted horder hsorted
    show (fill _ _ _ _).filter _ = _
    rw [filter_fill _ hspace hquote]
    exact filter_mergeSort horder hsorted
  refine ⟨?_, ⟨(cellSpans env.source line).map fun cell => (tableCell env cell).value, ?_, ?_⟩, ?_⟩
  · rw [Node.start, Node.stop, hspan]
    dsimp only
    rw [pipePlaces_content hle hstop]
    refine hnodes .tablePipe (by decide) (by decide) _ ?_ ?_
    · have hrising : Rising (contentStart env.source line) line.stop
          (pipePlaces env.source line.start line.stop) := by
        rw [pipePlaces_line hle hstop]
        exact (rowPipes_rising hle hstop).mono_right (rowStop_bounds hle hstop).2
      refine List.pairwise_map.mpr (hrising.pairwise.imp fun h => ?_)
      simp only [before, Bool.or_eq_true, decide_eq_true_eq]
      exact .inl h
    · have hall : ∀ n ∈ (pipePlaces env.source line.start line.stop).map fun p =>
          leafOf env.source .tablePipe p (p + 1), n.isMarkup .tablePipe = true := by
        intro n hn
        obtain ⟨p, _, rfl⟩ := List.mem_map.mp hn
        rfl
      have hnone : ∀ n ∈ (cellSpans env.source line).map fun cell => (tableCell env cell).value,
          ¬ n.isMarkup .tablePipe = true := by
        intro n hn
        obtain ⟨cell, _, rfl⟩ := List.mem_map.mp hn
        rw [Node.isMarkup, tableCell_kind]
        decide
      rw [tableCells_eq, List.filter_append, List.filter_eq_self.mpr hall, List.filter_eq_nil_iff.mpr hnone,
        List.append_nil]
  · have hview : view? (tableRow env kind line).value =
        some (.tableRow ((tableRow env kind line).value.children.filter (·.isMarkup .tableCell))) := by
      rcases hkind with rfl | rfl <;> rfl
    rw [hview]
    refine congrArg (fun cells => some (View.tableRow cells)) (hnodes .tableCell (by decide) (by decide) _ ?_ ?_)
    · refine List.pairwise_map.mpr (hpairs.imp_of_mem fun {a b} ha hb h => ?_)
      obtain ⟨-, hfirstFrom, hfirstLe, hfirstTo⟩ := hcell a ha
      obtain ⟨-, hsecondFrom, hsecondLe, hsecondTo⟩ := hcell b hb
      simp only [before, Bool.or_eq_true, Bool.and_eq_true, decide_eq_true_eq, beq_iff_eq]
      omega
    · have hnone : ∀ n ∈ (pipePlaces env.source line.start line.stop).map fun p =>
          leafOf env.source .tablePipe p (p + 1), ¬ n.isMarkup .tableCell = true := by
        intro n hn
        obtain ⟨p, _, rfl⟩ := List.mem_map.mp hn
        exact Bool.false_ne_true
      have hall : ∀ n ∈ (cellSpans env.source line).map fun cell => (tableCell env cell).value,
          n.isMarkup .tableCell = true := by
        intro n hn
        obtain ⟨cell, _, rfl⟩ := List.mem_map.mp hn
        exact beq_iff_eq.mpr (tableCell_kind cell)
      rw [tableCells_eq, List.filter_append, List.filter_eq_self.mpr hall, List.filter_eq_nil_iff.mpr hnone,
        List.nil_append]
  · rw [hspan, cellSpans_content, List.forall₂_map_left_iff]
    exact List.forall₂_same.mpr fun cell hmem => (hcell cell hmem).1
  · exact hfits.in_order (joinable_places env.source)

omit he in
/-- A header, a delimiter row with as many cells and further rows are a table. -/
theorem filled_isTable {header delimiter : Node} {cells rows : List Node} {start stop : Nat}
    (hkind : header.kind = .markup .tableHeader) (hview : view? header = some (.tableRow cells))
    (hdelimiter : delimiter.kind = .markup .tableDelimiter)
    (hall : (delimiterCells delimiter.text.toList).all isDelimiterCell = true)
    (hsame : cells.length = (delimiterCells delimiter.text.toList).length) :
    IsTable (filled src .table start stop (header :: delimiter :: rows)) := by
  have hheader : (filled src .table start stop (header :: delimiter :: rows)).child? .tableHeader = some header := by
    rw [child?_filled (by decide) (by decide), List.find?_cons_of_pos (by rw [Node.isMarkup, hkind]; rfl)]
  have hrow : (filled src .table start stop (header :: delimiter :: rows)).child? .tableDelimiter = some delimiter := by
    rw [child?_filled (by decide) (by decide), List.find?_cons_of_neg (by rw [Node.isMarkup, hkind]; decide),
      List.find?_cons_of_pos (by rw [Node.isMarkup, hdelimiter]; rfl)]
  have haligns := alignments_aligns hrow hall
  have hlength := haligns.length_eq
  refine ⟨header, _, _, cells, delimiter, congrArg (fun header => some (View.table header _ _)) hheader, hview, hrow,
    haligns, hsame.trans hlength, ?_⟩
  rw [← hlength, delimiterCells, splitAtChar_pipe]
  exact List.length_pos_of_ne_nil (splitPipes_ne_nil _)

/-- **The rule for tables reads a table.** -/
theorem tableBlock_isTable {later : List Span} {result : Limited (Node × List Span)} {lo hi : Nat}
    (hlines : Lines lo hi (line :: later)) (hhi : hi ≤ env.source.size)
    (h : tableBlock env line later = some result) : IsTable result.value.1 := by
  have hstop : line.stop ≤ env.source.size := Nat.le_trans (hlines.mem List.mem_cons_self).2.2 hhi
  unfold tableBlock at h
  dsimp only at h
  cases later with
  | nil => exact absurd h (by simp)
  | cons delimiter rest =>
      dsimp only at h
      split at h
      · exact absurd h (by simp)
      rename_i hpipe
      rw [Bool.not_eq_true', Bool.not_eq_false, List.contains_iff_mem] at hpipe
      obtain ⟨count, hcount, h⟩ := Option.bind_eq_some_iff.mp h
      split at h
      · exact absurd h (by simp)
      rename_i hsame
      simp only [bne_iff_ne, ne_eq, Decidable.not_not] at hsame
      obtain rfl := Option.some.inj h
      have hlt : contentStart env.source line < line.stop := by
        have hsome := List.length_pos_of_mem hpipe
        rw [length_unindented hstop] at hsome
        omega
      have hheader : IsRow env.source (tableRow env .tableHeader line).value :=
        tableRow_isRow he (.inl rfl) hlines.2.1 hstop hlt
      obtain ⟨cells, hview, hcells⟩ := hheader.cells
      rw [(tableRow_span he _ hlines.2.1 hstop hlt).2, cellSpans_content] at hcells
      have htext := rowText env.source delimiter
      unfold delimiterCount? at hcount
      dsimp only at hcount
      split at hcount
      · rename_i hall
        obtain rfl := Option.some.inj hcount
        rw [← htext] at hall hsame
        exact filled_isTable rfl hview rfl hall (hcells.length_eq.trans hsame)
      · exact absurd hcount (by simp)

end Rows

end ComponentMarkup.Markup
