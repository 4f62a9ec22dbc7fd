import ComponentMarkup.Proofs.Markup.IdlePlaces

/-!
# Rows of tables leave out blanks only

A row is cut at its pipes, and the nodes of its cells leave out the white space around their content.  A cell that is
dropped because a pipe stands at the end of the row is empty.

* `keeps_cutAt`, `mem_cellSpans` — cutting a row leaves out its pipes, and dropping cells nothing;
* `tableRow_form`, `tableRows_form` — rows are formed, and keep their lines.
-/

namespace ComponentMarkup.Markup

open ComponentMarkup.Text ComponentMarkup.Tree

variable {src : Source} {quoted : Prop} {line : Span}

/-! ## Cells -/

/-- Cutting a stretch leaves out the places at which it is cut. -/
theorem keeps_cutAt {start stop : Nat} {places : List Nat} (h : Rising start stop places) :
    Keeps src quoted [⟨start, stop⟩] (cutAt start stop places ++ places.map fun p => ⟨p, p + 1⟩) := by
  induction places generalizing start with
  | nil => exact .first _ _
  | cons place places ih =>
      have hpiece : Keeps src quoted [⟨start, place⟩]
          (cutAt start stop (place :: places) ++ (place :: places).map fun p => ⟨p, p + 1⟩) := .first _ _
      have hcut : Keeps src quoted [⟨place, place + 1⟩]
          (cutAt start stop (place :: places) ++ (place :: places).map fun p => ⟨p, p + 1⟩) :=
        .part (List.mem_append_right _ List.mem_cons_self) (Nat.le_refl _) (Nat.le_refl _)
      refine hpiece.join (hcut.join ((ih h.2).subset ?_))
      exact List.append_subset.mpr ⟨List.subset_append_of_subset_left _ (List.subset_cons_self _ _),
        List.subset_append_of_subset_right _ (List.subset_cons_self _ _)⟩

/-- The last piece of a stretch starts behind the last place at which it is cut. -/
theorem cutAt_getLast? (start stop : Nat) (places : List Nat) :
    (cutAt start stop places).getLast? = some ⟨(places.getLast?.map (· + 1)).getD start, stop⟩ := by
  induction places generalizing start with
  | nil => rfl
  | cons place places ih =>
      have hrest := ih (place + 1)
      cases places with
      | nil => rfl
      | cons next places =>
          rw [List.getLast?_cons_cons]
          show List.getLast? (_ :: _ :: _) = _
          rw [List.getLast?_cons_cons]
          show List.getLast? (cutAt (place + 1) stop (next :: places)) = _
          rw [hrest, List.getLast?_eq_some_getLast (List.cons_ne_nil next places)]
          rfl

/-- What is in a list is its last element, or is left without it. -/
theorem mem_dropLast_or {α : Type} {x : α} {xs : List α} (h : x ∈ xs) : x ∈ xs.dropLast ∨ xs.getLast? = some x := by
  have hne := List.ne_nil_of_mem h
  rw [← List.dropLast_concat_getLast hne, List.mem_append, List.mem_singleton] at h
  rcases h with h | h
  · exact .inl h
  · exact .inr (by rw [List.getLast?_eq_some_getLast hne, h])

/-- Only empty pieces are no cells. -/
theorem mem_cellSpans {cell : Span} (h : cell ∈ cutAt (contentStart src line) (rowStop src line)
    (pipePlaces src (contentStart src line) (rowStop src line))) :
    cell ∈ cellSpans src line ∨ cell.stop ≤ cell.start := by
  unfold cellSpans
  dsimp only
  rw [← rowStop]
  generalize pipePlaces src (contentStart src line) (rowStop src line) = pipes at h ⊢
  generalize contentStart src line = start at h ⊢
  generalize rowStop src line = stop at h ⊢
  -- a piece in front of a pipe at the start is empty
  have hfront : cell ∈ (if pipes.head? == some start then (cutAt start stop pipes).tail else cutAt start stop pipes) ∨
      cell.stop ≤ cell.start := by
    split
    · rename_i hhead
      cases pipes with
      | nil => exact absurd hhead (by simp)
      | cons pipe pipes =>
          obtain rfl : pipe = start := by simpa using hhead
          rcases List.mem_cons.mp h with rfl | h
          · exact .inr (Nat.le_refl _)
          · exact .inl h
    · exact .inl h
  rcases hfront with hfront | hempty
  · split
    · rename_i hlast
      refine (mem_dropLast_or hfront).imp_right fun hcell => ?_
      -- so is a piece behind a pipe at the end
      have hcell : (cutAt start stop pipes).getLast? = some cell := by
        split at hcell
        · rw [List.getLast?_tail] at hcell
          split at hcell
          · exact absurd hcell (by simp)
          · exact hcell
        · exact hcell
      rw [cutAt_getLast?] at hcell
      obtain rfl := Option.some.inj hcell
      cases hpipe : pipes.getLast? with
      | none =>
          rw [hpipe] at hlast
          exact absurd hlast Bool.false_ne_true
      | some pipe =>
          rw [hpipe] at hlast
          exact Nat.le_of_eq (beq_iff_eq.mp hlast).symm
    · exact .inl hfront
  · exact .inr hempty

/-! ## Rows -/

section Rows

variable {env : BlockEnv} (quoted : Prop) (he : env.Forms) (hs : env.Sound)

include he hs

/-- A cell is formed, and keeps what is between the pipes around it. -/
theorem tableCell_form {cell : Span} (hstop : (trimmed env.source cell.start cell.stop).stop ≤ env.source.size) :
    Formed env.source quoted (tableCell env cell).value ∧
      Keeps env.source quoted [cell] [(tableCell env cell).value.span] := by
  have hkeeps : ∀ s : Span, ((trimmed env.source cell.start cell.stop).start <
      (trimmed env.source cell.start cell.stop).stop → s = trimmed env.source cell.start cell.stop) →
      Keeps env.source quoted [cell] [s] := fun s hspan =>
    keeps_trimmed fun hlt => List.mem_singleton.mpr (hspan hlt).symm
  unfold tableCell
  dsimp only
  generalize trimmed env.source cell.start cell.stop = content at hstop hkeeps
  split
  · rename_i hlt
    have hregion : Region content.start content.stop [content] := Region.single (Nat.le_of_lt hlt)
    obtain ⟨hnodes, hholds⟩ := he.region quoted hregion hstop (.singleton _) .full
    have hrun := hs.inline .full hregion hstop
    exact ⟨.holding (by decide) hnodes hholds.hold, hkeeps _ fun _ => hrun.branch_span _ (hrun.ne_nil hlt)⟩
  · rename_i hle
    refine ⟨.inner (by decide) (fun _ => IsRegion.hold (.inl rfl)) .nil, ?_⟩
    exact hkeeps _ fun hlt => absurd hlt hle

/-- The pipes and cells of a row are formed, and keep its line. -/
theorem rowNodes_form (hle : line.start ≤ line.stop) (hstop : line.stop ≤ env.source.size) :
    Each (Formed env.source quoted) (((pipePlaces env.source line.start line.stop).map fun p =>
        leafOf env.source .tablePipe p (p + 1)) ++ (tableCells env (cellSpans env.source line)).value) ∧
      Keeps env.source quoted [line] ((((pipePlaces env.source line.start line.stop).map fun p =>
        leafOf env.source .tablePipe p (p + 1)) ++ (tableCells env (cellSpans env.source line)).value).map Node.span) := by
  rw [tableCells_eq, pipePlaces_line hle hstop, List.map_append, List.map_map, List.map_map]
  have hcell : ∀ cell ∈ cellSpans env.source line, Formed env.source quoted (tableCell env cell).value ∧
      Keeps env.source quoted [cell] [(tableCell env cell).value.span] := by
    intro cell hmem
    obtain ⟨_, hcellLe, hcellStop, _⟩ := (cellSpans_bounds hle hstop).2 cell hmem
    have hbound := trimmed_bounds env.source hcellLe (Nat.le_trans hcellStop hstop)
    exact tableCell_form quoted he hs (Nat.le_trans hbound.2 (Nat.le_trans hcellStop hstop))
  constructor
  · refine Each.append (fun n hn => ?_) fun n hn => ?_
    · obtain ⟨p, _, rfl⟩ := List.mem_map.mp hn
      exact .leafOf rfl
    · obtain ⟨cell, hmem, rfl⟩ := List.mem_map.mp hn
      exact (hcell cell hmem).1
  · refine (keeps_row env.source quoted line).trans ((keeps_cutAt (rowPipes_rising hle hstop)).trans ?_)
    refine .append (.each fun cell hmem => ?_) (.each fun s hs => ?_)
    · rcases mem_cellSpans hmem with hmem | hempty
      · refine (hcell cell hmem).2.subset fun s hs => List.mem_append_right _ ?_
        obtain rfl := List.mem_singleton.mp hs
        exact List.mem_map.mpr ⟨cell, hmem, rfl⟩
      · exact .empty hempty
    · obtain ⟨p, hp, rfl⟩ := List.mem_map.mp hs
      exact .part (List.mem_append_left _ (List.mem_map.mpr ⟨p, hp, rfl⟩)) (Nat.le_refl _) (Nat.le_refl _)

/-- **A row is formed, and keeps its line.** -/
theorem tableRow_form {kind : MarkupKind} (hkind : kind.isOrdinary = true)
    (hle : line.start ≤ line.stop) (hstop : line.stop ≤ env.source.size)
    (hsome : contentStart env.source line < line.stop) : Formed env.source quoted (tableRow env kind line).value ∧
      Keeps env.source quoted [line] [(tableRow env kind line).value.span] := by
  obtain ⟨hstart, hfits, hend⟩ := (tableRow_run hs hle hstop hsome : Run env.source.Holds _ _
    [(tableRow env kind line).value]).of_cons
  obtain ⟨hnodes, hkeeps⟩ := rowNodes_form quoted he hs hle hstop
  have hline : Keeps env.source quoted [(tableRow env kind line).value.span] [line] := by
    refine .part (List.mem_singleton_self _) ?_ (Nat.le_of_eq hend.chain)
    exact Nat.le_trans (contentStart_bounds hle hstop).1 (Nat.le_of_eq hstart.symm)
  unfold tableRow at hfits hline ⊢
  dsimp only at hfits hline ⊢
  rw [value_bind] at hfits hline ⊢
  refine ⟨filled_formed hkind hfits (hline.trans (hkeeps.among ?_)) fun n hn => hnodes n (List.mem_mergeSort.mp hn),
    (hkeeps.among ?_).filled hfits⟩
  · exact fun _ hn => List.mem_mergeSort.mpr hn
  · exact fun _ hn => List.mem_mergeSort.mpr hn

/-- Several rows are formed, and keep their lines. -/
theorem tableRows_form {lo hi : Nat} {lines : List Span} (hlines : Lines lo hi lines)
    (hhi : hi ≤ env.source.size) (hsome : ∀ l ∈ lines, isBlankLine env.source l = false) :
    Each (Formed env.source quoted) (tableRows env lines).value ∧
      Keeps env.source quoted lines ((tableRows env lines).value.map Node.span) := by
  induction lines generalizing lo with
  | nil => exact ⟨.nil, .nil _⟩
  | cons line lines ih =>
      obtain ⟨_, _, hstop⟩ := content_bounds hlines hhi List.mem_cons_self
      have hlt := contentStart_lt hstop (hsome line List.mem_cons_self)
      obtain ⟨hrow, hkeeps⟩ : Formed env.source quoted (tableRow env .tableRow line).value ∧
          Keeps env.source quoted [line] [(tableRow env .tableRow line).value.span] :=
        tableRow_form quoted he hs rfl hlines.2.1 hstop hlt
      obtain ⟨hrows, hrest⟩ := ih hlines.2.2 fun l hl => hsome l (List.mem_cons_of_mem _ hl)
      exact ⟨hrows.cons hrow, (hkeeps.subset (List.cons_subset_cons _ (List.nil_subset _))).cons
        (hrest.subset (List.subset_cons_self _ _))⟩

end Rows

end ComponentMarkup.Markup
