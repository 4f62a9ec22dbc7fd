import ComponentMarkup.Proofs.Markup.FillTiling
import ComponentMarkup.Proofs.Markup.LineBounds

/-!
# Rows of tables

A row is cut at its pipes.  The nodes of a row are its pipes and its cells, sorted by their places; as no
two of them overlap, they end up one behind the other.

* `cellSpans_bounds` — cells are in order, lie in the row and hold no pipe;
* `spread_of_sorted` — sorting nodes that do not overlap puts them in order;
* `tableRow_run` — a row covers its line.
-/

namespace ComponentMarkup.Markup

open ComponentMarkup.Text ComponentMarkup.Tree

variable {src : Source} {line : Span}

/-! ## Pipes -/

/-- Places between two others, each behind the one before it. -/
def Rising (lo hi : Nat) : List Nat → Prop
  | [] => lo ≤ hi
  | place :: places => lo ≤ place ∧ Rising (place + 1) hi places

theorem Rising.mem {lo hi : Nat} {places : List Nat} (h : Rising lo hi places) :
    lo ≤ hi ∧ ∀ p ∈ places, lo ≤ p ∧ p < hi := by
  induction places generalizing lo with
  | nil => exact ⟨h, fun _ hp => absurd hp List.not_mem_nil⟩
  | cons place places ih =>
      obtain ⟨hle, hrest⟩ := ih h.2
      have hfirst := h.1
      refine ⟨by omega, ?_⟩
      intro p hp
      rcases List.mem_cons.mp hp with rfl | hp
      · exact ⟨hfirst, hle⟩
      · have hbounds := hrest p hp
        omega

theorem Rising.mono {lo lo' hi : Nat} {places : List Nat} (h : Rising lo hi places) (hlo : lo' ≤ lo) :
    Rising lo' hi places := by
  cases places with
  | nil => exact Nat.le_trans hlo h
  | cons place places => exact ⟨Nat.le_trans hlo h.1, h.2⟩

theorem Rising.mono_right {lo hi hi' : Nat} {places : List Nat} (h : Rising lo hi places)
    (hhi : hi ≤ hi') : Rising lo hi' places := by
  induction places generalizing lo with
  | nil => exact Nat.le_trans h hhi
  | cons place places ih => exact ⟨h.1, ih h.2⟩

theorem Rising.pairwise {lo hi : Nat} {places : List Nat} (h : Rising lo hi places) :
    places.Pairwise fun a b => a + 1 ≤ b := by
  induction places generalizing lo with
  | nil => exact List.Pairwise.nil
  | cons place places ih => exact List.Pairwise.cons (fun p hp => (h.2.mem.2 p hp).1) (ih h.2)

/-- The pipes among characters, the first of which stands at a place. -/
def pipesFrom (src : Source) (place : Nat) (cs : List Char) : List Nat :=
  (cs.zipIdx place).filterMap fun (c, p) =>
    if c == '|' && src.before? p != some '\\' then some p else none

/-- The first of some characters is a pipe or not. -/
theorem pipesFrom_cons (place : Nat) (c : Char) (cs : List Char) :
    pipesFrom src place (c :: cs) = (if c == '|' && src.before? place != some '\\' then [place] else []) ++
      pipesFrom src (place + 1) cs := by
  unfold pipesFrom
  rw [List.zipIdx_cons, List.filterMap_cons]
  dsimp only
  split
  · rename_i hnone
    split at hnone
    · exact absurd hnone (by simp)
    · rename_i hc
      rw [if_neg hc, List.nil_append]
  · rename_i p hsome
    split at hsome
    · rename_i hc
      rw [if_pos hc, Option.some.inj hsome, List.singleton_append]
    · exact absurd hsome (by simp)

/-- The pipes among characters and those behind them. -/
theorem pipesFrom_append (place : Nat) (xs ys : List Char) :
    pipesFrom src place (xs ++ ys) = pipesFrom src place xs ++ pipesFrom src (place + xs.length) ys := by
  simp only [pipesFrom, List.zipIdx_append, List.filterMap_append]

/-- Where no pipe stands none is found. -/
theorem pipesFrom_eq_nil (place : Nat) {cs : List Char} (h : ∀ c ∈ cs, c ≠ '|') :
    pipesFrom src place cs = [] := by
  induction cs generalizing place with
  | nil => rfl
  | cons c cs ih =>
      have hc : (c == '|') = false := beq_eq_false_iff_ne.mpr (h c List.mem_cons_self)
      rw [pipesFrom_cons, hc, ih (place + 1) fun d hd => h d (List.mem_cons_of_mem _ hd)]
      rfl

/-- Pipes are in order. -/
theorem pipesFrom_rising (src : Source) (place : Nat) (cs : List Char) :
    Rising place (place + cs.length) (pipesFrom src place cs) := by
  induction cs generalizing place with
  | nil => exact Nat.le_refl place
  | cons c cs ih =>
      have hrest := ih (place + 1)
      have hlen : place + 1 + cs.length = place + (c :: cs).length := by
        rw [List.length_cons]
        omega
      rw [hlen] at hrest
      rw [pipesFrom_cons]
      split
      · exact ⟨Nat.le_refl place, hrest⟩
      · exact hrest.mono (Nat.le_succ place)

/-- The content of a line up to the white space at its end. -/
def rowStop (src : Source) (line : Span) : Nat :=
  contentStart src line + (trimEnd (unindented src line)).length

/-- The content of a line ends within the line. -/
theorem rowStop_bounds (hle : line.start ≤ line.stop) (hstop : line.stop ≤ src.size) :
    contentStart src line ≤ rowStop src line ∧ rowStop src line ≤ line.stop := by
  obtain ⟨_, hend⟩ := contentStart_bounds hle hstop
  have htrim := trimEnd_length_le (unindented src line)
  rw [length_unindented hstop] at htrim
  unfold rowStop
  omega

/-- The pipes in the content of a line are in order. -/
theorem rowPipes_rising (hle : line.start ≤ line.stop) (hstop : line.stop ≤ src.size) :
    Rising (contentStart src line) (rowStop src line)
      (pipePlaces src (contentStart src line) (rowStop src line)) := by
  obtain ⟨hbehind, hrow⟩ := rowStop_bounds hle hstop
  have hpipes := pipesFrom_rising src (contentStart src line)
    (src.slice (contentStart src line) (rowStop src line))
  rwa [src.length_slice (Nat.le_trans hrow hstop), Nat.add_sub_cancel' hbehind] at hpipes

/-- Behind a trimmed text stands only white space. -/
theorem drop_trimEnd_white (cs : List Char) : ∀ c ∈ cs.drop (trimEnd cs).length, isWhitespace c := by
  have hsplit : cs = trimEnd cs ++ (cs.reverse.takeWhile isWhitespace).reverse := by
    rw [trimEnd, ← List.reverse_append, List.takeWhile_append_dropWhile, List.reverse_reverse]
  have hdrop : cs.drop (trimEnd cs).length = (cs.reverse.takeWhile isWhitespace).reverse := by
    conv => lhs; arg 2; rw [hsplit]
    rw [List.drop_left]
  rw [hdrop]
  intro c hc
  exact List.mem_takeWhile_imp (List.mem_reverse.mp hc)

/-- All pipes of a line stand in its content. -/
theorem pipePlaces_line (hle : line.start ≤ line.stop) (hstop : line.stop ≤ src.size) :
    pipePlaces src line.start line.stop =
      pipePlaces src (contentStart src line) (rowStop src line) := by
  obtain ⟨hstart, hend⟩ := contentStart_bounds hle hstop
  obtain ⟨hbehind, hrow⟩ := rowStop_bounds hle hstop
  show pipesFrom src line.start (src.slice line.start line.stop) =
    pipesFrom src (contentStart src line) (src.slice (contentStart src line) (rowStop src line))
  have hfront : pipesFrom src line.start (src.slice line.start (contentStart src line)) = [] := by
    refine pipesFrom_eq_nil _ fun c hc => ?_
    have hblank : src.slice line.start (contentStart src line) =
        (lineChars src line).takeWhile isBlank := by
      have htake := List.prefix_iff_eq_take.mp (List.takeWhile_prefix isBlank (l := lineChars src line))
      rw [htake]
      exact (src.slice_take hend).symm
    rw [hblank] at hc
    have hwhite := List.mem_takeWhile_imp hc
    rintro rfl
    exact absurd hwhite (by decide)
  have hback : pipesFrom src (rowStop src line) (src.slice (rowStop src line) line.stop) = [] := by
    refine pipesFrom_eq_nil _ fun c hc => ?_
    have htail : src.slice (rowStop src line) line.stop =
        (unindented src line).drop (trimEnd (unindented src line)).length := by
      conv => rhs; arg 2; rw [unindented_eq]
      rw [src.slice_drop]
      rfl
    rw [htail] at hc
    have hwhite := drop_trimEnd_white _ c hc
    rintro rfl
    exact absurd hwhite (by decide)
  rw [← src.slice_append hstart hend, ← src.slice_append hbehind hrow, pipesFrom_append,
    pipesFrom_append, hfront, src.length_slice (Nat.le_trans hend hstop),
    src.length_slice (Nat.le_trans hrow hstop), Nat.add_sub_cancel' hstart,
    Nat.add_sub_cancel' hbehind, hback, List.nil_append, List.append_nil]

/-! ## Cells -/

/-- Cutting a stretch at rising places gives lines from its start to its end. -/
theorem cutAt_lines {start stop : Nat} {places : List Nat} (h : Rising start stop places) :
    Lines start stop (cutAt start stop places) := by
  induction places generalizing start with
  | nil => exact ⟨Nat.le_refl start, h, Nat.le_refl stop⟩
  | cons place places ih =>
      exact ⟨Nat.le_refl start, h.1, (ih h.2).mono (Nat.le_succ place) (Nat.le_refl stop)⟩

/-- No piece reaches over a place at which a stretch is cut. -/
theorem cutAt_apart {start stop : Nat} {places : List Nat} (h : Rising start stop places) :
    ∀ p ∈ places, ∀ cell ∈ cutAt start stop places, cell.stop ≤ p ∨ p + 1 ≤ cell.start := by
  induction places generalizing start with
  | nil => exact fun p hp => absurd hp List.not_mem_nil
  | cons place places ih =>
      have hrest := cutAt_lines h.2
      intro p hp cell hcell
      rcases List.mem_cons.mp hp with rfl | hp
      · rcases List.mem_cons.mp hcell with rfl | hcell
        · exact .inl (Nat.le_refl p)
        · exact .inr (hrest.mem hcell).1
      · rcases List.mem_cons.mp hcell with rfl | hcell
        · exact .inl (Nat.le_of_lt (h.2.mem.2 p hp).1)
        · exact ih h.2 p hp cell hcell

/-- Lines do not overlap. -/
theorem lines_pairwise {lo hi : Nat} {lines : List Span} (h : Lines lo hi lines) :
    lines.Pairwise fun a b => a.stop ≤ b.start := by
  induction lines generalizing lo with
  | nil => exact List.Pairwise.nil
  | cons line lines ih => exact List.Pairwise.cons (fun next hnext => (h.2.2.mem hnext).1) (ih h.2.2)

/-- The cells of a row are some of the pieces between its pipes. -/
theorem cellSpans_sublist (src : Source) (line : Span) :
    List.Sublist (cellSpans src line) (cutAt (contentStart src line) (rowStop src line)
      (pipePlaces src (contentStart src line) (rowStop src line))) := by
  unfold cellSpans
  dsimp only
  rw [← rowStop]
  generalize cutAt (contentStart src line) (rowStop src line)
    (pipePlaces src (contentStart src line) (rowStop src line)) = cells
  split <;> split
  · exact (List.dropLast_sublist _).trans (List.tail_sublist cells)
  · exact List.dropLast_sublist cells
  · exact List.tail_sublist cells
  · exact List.Sublist.refl cells

/-- **Cells are in order, lie in the content of the row and hold none of its pipes.** -/
theorem cellSpans_bounds (hle : line.start ≤ line.stop) (hstop : line.stop ≤ src.size) :
    ((cellSpans src line).Pairwise fun a b => a.stop ≤ b.start) ∧
      ∀ cell ∈ cellSpans src line, contentStart src line ≤ cell.start ∧ cell.start ≤ cell.stop ∧
        cell.stop ≤ line.stop ∧
        ∀ p ∈ pipePlaces src line.start line.stop, cell.stop ≤ p ∨ p + 1 ≤ cell.start := by
  have hrow := rowStop_bounds hle hstop
  have hrising := rowPipes_rising hle hstop
  have hlines := cutAt_lines hrising
  have hsub := cellSpans_sublist src line
  refine ⟨(lines_pairwise hlines).sublist hsub, ?_⟩
  intro cell hcell
  obtain ⟨hfrom, hcellLe, hto⟩ := hlines.mem (hsub.subset hcell)
  refine ⟨hfrom, hcellLe, Nat.le_trans hto hrow.2, ?_⟩
  rw [pipePlaces_line hle hstop]
  exact fun p hp => cutAt_apart hrising p hp cell (hsub.subset hcell)

/-! ## Sorting -/

/-- The order of the nodes of a row. -/
def before (a b : Node) : Bool :=
  a.start < b.start || (a.start == b.start && a.stop ≤ b.stop)

/-- Nodes that do not overlap. -/
def Apart (a b : Node) : Prop :=
  a.stop ≤ b.start ∨ b.stop ≤ a.start

/-- Nodes that are sorted and do not overlap are one behind the other. -/
theorem spread_of_sorted {lo hi : Nat} {nodes : List Node} (hlo : lo ≤ hi)
    (hsorted : nodes.Pairwise fun a b => before a b) (hapart : nodes.Pairwise Apart)
    (hnodes : ∀ n ∈ nodes, n.Fits src ∧ lo ≤ n.start ∧ n.stop ≤ hi) : Spread src lo hi nodes := by
  induction nodes generalizing lo with
  | nil => exact hlo
  | cons node nodes ih =>
      obtain ⟨hfits, hstart, hstop⟩ := hnodes node List.mem_cons_self
      refine ⟨hstart, hfits, ih hstop hsorted.of_cons hapart.of_cons ?_⟩
      intro n hn
      obtain ⟨hnfits, _, hnstop⟩ := hnodes n (List.mem_cons_of_mem _ hn)
      refine ⟨hnfits, ?_, hnstop⟩
      have horder := List.rel_of_pairwise_cons hsorted hn
      have hle := hfits.le
      have hnle := hnfits.le
      simp only [before, Bool.or_eq_true, Bool.and_eq_true, decide_eq_true_eq, beq_iff_eq] at horder
      rcases List.rel_of_pairwise_cons hapart hn with h | h
      · exact h
      · omega

/-- **Sorting nodes that do not overlap puts them in order.** -/
theorem spread_mergeSort {lo hi : Nat} {nodes : List Node} (hlo : lo ≤ hi)
    (hapart : nodes.Pairwise Apart)
    (hnodes : ∀ n ∈ nodes, n.Fits src ∧ lo ≤ n.start ∧ n.stop ≤ hi) :
    Spread src lo hi (nodes.mergeSort before) := by
  have htrans : ∀ a b c : Node, before a b → before b c → before a c := by
    intro a b c hab hbc
    simp only [before, Bool.or_eq_true, Bool.and_eq_true, decide_eq_true_eq, beq_iff_eq] at hab hbc ⊢
    omega
  have htotal : ∀ a b : Node, before a b || before b a := by
    intro a b
    simp only [before, Bool.or_eq_true, Bool.and_eq_true, decide_eq_true_eq, beq_iff_eq]
    omega
  have hsorted : (nodes.mergeSort before).Pairwise fun a b => before a b :=
    List.pairwise_mergeSort htrans htotal nodes
  have hperm := List.mergeSort_perm nodes before
  refine spread_of_sorted hlo hsorted ?_ fun n hn => hnodes n (hperm.mem_iff.mp hn)
  exact hperm.symm.pairwise hapart fun h => Or.symm h

/-! ## Rows -/

section Rows

variable {env : BlockEnv} (he : env.Sound)

include he

/-- The node of a cell lies in the cell. -/
theorem tableCell_fits {cell : Span} (hle : cell.start ≤ cell.stop) (hstop : cell.stop ≤ env.source.size) :
    (tableCell env cell).value.Fits env.source ∧ cell.start ≤ (tableCell env cell).value.start ∧
      (tableCell env cell).value.stop ≤ cell.stop := by
  obtain ⟨hstart, hend⟩ := trimmed_bounds env.source hle hstop
  unfold tableCell
  dsimp only
  generalize trimmed env.source cell.start cell.stop = content at hstart hend
  split
  · rename_i hlt
    have hrun := he.inline .full (Region.single (Nat.le_of_lt hlt)) (Nat.le_trans hend hstop)
    obtain ⟨hfrom, hfits, hto⟩ := (markup_run .tableCell hrun (hrun.ne_nil hlt)).of_cons
    refine ⟨hfits, ?_, ?_⟩
    · show cell.start ≤ Node.start (Node.markup _ _)
      rw [hfrom]
      exact hstart
    · show Node.stop (Node.markup _ _) ≤ cell.stop
      rw [show Node.stop (Node.markup _ _) = content.stop from hto.chain]
      exact hend
  · have hbound : min content.start cell.stop ≤ env.source.size := by omega
    have hnone : Run env.source.Holds (min content.start cell.stop) (min content.start cell.stop) [] :=
      Run.nil _
    obtain ⟨hfits, _⟩ := hnone.branchAt (.markup .tableCell) (env.source.holds_empty hbound)
    refine ⟨hfits, ?_, ?_⟩
    · show cell.start ≤ min content.start cell.stop
      omega
    · show min content.start cell.stop ≤ cell.stop
      omega

omit he in
/-- The nodes of several cells are those of each. -/
theorem tableCells_eq (cells : List Span) :
    (tableCells env cells).value = cells.map fun cell => (tableCell env cell).value := by
  induction cells with
  | nil => rfl
  | cons cell cells ih =>
      rw [List.map_cons, ← ih]
      rfl

/-- **A row covers its content**, its pipes and cells in order. -/
theorem tableRow_run {kind : MarkupKind} (hle : line.start ≤ line.stop)
    (hstop : line.stop ≤ env.source.size) (hsome : contentStart env.source line < line.stop) :
    Run env.source.Holds (contentStart env.source line) line.stop [(tableRow env kind line).value] := by
  obtain ⟨hpairs, hcells⟩ := cellSpans_bounds hle hstop
  have hpipes : Rising (contentStart env.source line) line.stop
      (pipePlaces env.source line.start line.stop) := by
    rw [pipePlaces_line hle hstop]
    exact (rowPipes_rising hle hstop).mono_right (rowStop_bounds hle hstop).2
  have hcell : ∀ cell ∈ cellSpans env.source line,
      (tableCell env cell).value.Fits env.source ∧ cell.start ≤ (tableCell env cell).value.start ∧
        (tableCell env cell).value.stop ≤ cell.stop := by
    intro cell hmem
    obtain ⟨_, hcellLe, hcellStop, _⟩ := hcells cell hmem
    exact tableCell_fits he hcellLe (Nat.le_trans hcellStop hstop)
  have hspread : Spread env.source (contentStart env.source line) line.stop
      ((((pipePlaces env.source line.start line.stop).map fun p =>
        leafOf env.source .tablePipe p (p + 1)) ++
          (tableCells env (cellSpans env.source line)).value).mergeSort before) := by
    refine spread_mergeSort (Nat.le_of_lt hsome) ?_ ?_
    · rw [tableCells_eq, List.pairwise_append, List.pairwise_map, List.pairwise_map]
      refine ⟨hpipes.pairwise.imp fun h => .inl h, ?_, ?_⟩
      · refine hpairs.imp_of_mem fun ha hb h => .inl ?_
        have hfirst := (hcell _ ha).2.2
        have hsecond := (hcell _ hb).2.1
        omega
      · intro pipe hpipe node hnode
        obtain ⟨p, hp, rfl⟩ := List.mem_map.mp hpipe
        obtain ⟨cell, hmem, rfl⟩ := List.mem_map.mp hnode
        obtain ⟨_, hfrom, hto⟩ := hcell cell hmem
        rcases (hcells cell hmem).2.2.2 p hp with h | h
        · exact .inr (Nat.le_trans hto h)
        · exact .inl (Nat.le_trans h hfrom)
    · intro node hnode
      rw [tableCells_eq] at hnode
      rcases List.mem_append.mp hnode with hnode | hnode
      · obtain ⟨p, hp, rfl⟩ := List.mem_map.mp hnode
        obtain ⟨hfrom, hto⟩ := hpipes.mem.2 p hp
        exact ⟨leafOf_fits (Nat.le_succ p) (Nat.le_trans hto hstop), hfrom, hto⟩
      · obtain ⟨cell, hmem, rfl⟩ := List.mem_map.mp hnode
        obtain ⟨hfits, hfrom, hto⟩ := hcell cell hmem
        obtain ⟨hstart, _, hcellStop, _⟩ := hcells cell hmem
        exact ⟨hfits, Nat.le_trans hstart hfrom, Nat.le_trans hto hcellStop⟩
  exact filled_run kind hspread hstop (.inl hsome)

end Rows

end ComponentMarkup.Markup
