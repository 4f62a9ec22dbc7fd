import ComponentMarkup.Document.View
import ComponentMarkup.Markup.BlockStart
import Mathlib.Data.List.Forall2

/-!
# Delimiter rows of tables

The second line of a table is cut twice.  When it is read, one pipe is taken off either end and each cell has to be a
row of hyphens.  When the alignments are asked for, its whole text is cut and the empty parts are left out.  Both give
the same cells, as a cell of hyphens is never empty and what is taken off leaves an empty part.

* `delimiterCells` — the cells of a delimiter row;
* `Aligns` — what a cell says about its column;
* `alignments_aligns` — the alignments of a table are what the cells of its delimiter row say, one by one.
-/

namespace ComponentMarkup.Markup

open ComponentMarkup.Text ComponentMarkup.Tree ComponentMarkup.Document

variable {mark c : Char} {cs row cell : List Char} {n : Node}

/-- The cells of a delimiter row, which may have a pipe of its own at either end. -/
def delimiterCells (row : List Char) : List (List Char) :=
  splitAtChar '|' (dropTrailing '|' (dropLeading '|' row))

/-- At least one hyphen, with or without a colon at either end. -/
def hyphens (left right : Bool) (width : Nat) : List Char :=
  (if left then [':'] else []) ++ List.replicate (width + 1) '-' ++ if right then [':'] else []

/-- **What a cell of a delimiter row says about its column**: that it is aligned to the ends with colons. -/
def Aligns (cell : List Char) (align : Option Align) : Prop :=
  ∃ left right width, trim cell = hyphens left right width ∧
    align = match left, right with
      | true, true => some .center
      | true, false => some .left
      | false, true => some .right
      | false, false => none

/-! ## Marks at the ends -/

/-- A text starts with what is taken off its front, if anything is. -/
theorem dropLeading_cases (mark : Char) (cs : List Char) :
    dropLeading mark cs = cs ∨ cs = mark :: dropLeading mark cs := by
  cases cs with
  | nil => exact .inl rfl
  | cons c cs =>
      cases hc : c == mark with
      | false => exact .inl (by simp [dropLeading, hc])
      | true =>
          obtain rfl := beq_iff_eq.mp hc
          exact .inr (by simp [dropLeading])

/-- A text ends with what is taken off its back, if anything is. -/
theorem dropTrailing_cases (mark : Char) (cs : List Char) :
    dropTrailing mark cs = cs ∨ cs = dropTrailing mark cs ++ [mark] := by
  unfold dropTrailing
  rcases dropLeading_cases mark cs.reverse with hsame | hdrop
  · exact .inl (by rw [hsame, List.reverse_reverse])
  · refine .inr ?_
    have hback := congrArg List.reverse hdrop
    rwa [List.reverse_reverse, List.reverse_cons] at hback

/-! ## Cutting at pipes -/

theorem splitPipes_ne_nil (cs : List Char) : splitPipes cs ≠ [] := by
  cases cs with
  | nil => exact List.cons_ne_nil _ _
  | cons c cs =>
      unfold splitPipes
      dsimp only
      split <;> exact List.cons_ne_nil _ _

/-- Cutting at pipes is cutting at a character. -/
theorem splitAtChar_pipe (cs : List Char) : splitAtChar '|' cs = splitPipes cs := by
  induction cs with
  | nil => rfl
  | cons c cs ih =>
      unfold splitAtChar splitPipes
      rw [ih]
      cases hparts : splitPipes cs with
      | nil => exact absurd hparts (splitPipes_ne_nil cs)
      | cons part parts => rfl

/-- A pipe at the end leaves an empty part. -/
theorem splitPipes_concat (cs : List Char) : splitPipes (cs ++ ['|']) = splitPipes cs ++ [[]] := by
  induction cs with
  | nil => rfl
  | cons c cs ih =>
      rw [List.cons_append, splitPipes, splitPipes, ih]
      cases hparts : splitPipes cs with
      | nil => exact absurd hparts (splitPipes_ne_nil cs)
      | cons part parts => split <;> rfl

/-- What is taken off a delimiter row are empty parts. -/
theorem splitPipes_row (row : List Char) : ∃ front back, (front = [] ∨ front = [[]]) ∧ (back = [] ∨ back = [[]]) ∧
    splitPipes row = front ++ delimiterCells row ++ back := by
  have hback : ∃ back, (back = [] ∨ back = [[]]) ∧
      splitPipes (dropLeading '|' row) = delimiterCells row ++ back := by
    unfold delimiterCells
    rw [splitAtChar_pipe]
    rcases dropTrailing_cases '|' (dropLeading '|' row) with hsame | hdrop
    · exact ⟨[], .inl rfl, by rw [hsame, List.append_nil]⟩
    · refine ⟨[[]], .inr rfl, ?_⟩
      conv => lhs; rw [hdrop]
      exact splitPipes_concat _
  obtain ⟨back, hempty, hcells⟩ := hback
  rcases dropLeading_cases '|' row with hsame | hdrop
  · exact ⟨[], back, .inl rfl, hempty, by rw [List.nil_append, ← hcells, hsame]⟩
  · refine ⟨[[]], back, .inr rfl, hempty, ?_⟩
    rw [List.append_assoc, ← hcells]
    conv => lhs; rw [hdrop]
    rfl

/-! ## Cells of hyphens -/

/-- A cell of a delimiter row is made of hyphens. -/
theorem isDelimiterCell_spec (h : isDelimiterCell cell = true) :
    ∃ left right width, trim cell = hyphens left right width := by
  unfold isDelimiterCell at h
  dsimp only at h
  rw [Bool.and_eq_true, Bool.not_eq_true', List.isEmpty_eq_false_iff] at h
  obtain ⟨hne, hall⟩ := h
  have hinner : ∃ width, dropTrailing ':' (dropLeading ':' (trim cell)) = List.replicate (width + 1) '-' := by
    refine ⟨(dropTrailing ':' (dropLeading ':' (trim cell))).length - 1, List.eq_replicate_iff.mpr ⟨?_, ?_⟩⟩
    · have hpos := List.length_pos_of_ne_nil hne
      omega
    · exact fun c hc => beq_iff_eq.mp (List.all_eq_true.mp hall c hc)
  obtain ⟨width, hwidth⟩ := hinner
  rcases dropLeading_cases ':' (trim cell) with hleft | hleft <;>
    rcases dropTrailing_cases ':' (dropLeading ':' (trim cell)) with hright | hright
  · exact ⟨false, false, width, by rw [← hleft, ← hright, hwidth]; simp [hyphens]⟩
  · exact ⟨false, true, width, by rw [← hleft, hright, hwidth]; simp [hyphens]⟩
  · exact ⟨true, false, width, by rw [hleft, ← hright, hwidth]; simp [hyphens]⟩
  · exact ⟨true, true, width, by rw [hleft, hright, hwidth]; simp [hyphens]⟩

theorem hyphens_ne_nil (left right : Bool) (width : Nat) : hyphens left right width ≠ [] := by
  simp [hyphens]

/-- The colons at the ends of a cell say how its column is aligned. -/
theorem aligns_of_isDelimiterCell (h : isDelimiterCell cell = true) : Aligns cell (alignment? (trim cell)) := by
  obtain ⟨left, right, width, hcell⟩ := isDelimiterCell_spec h
  refine ⟨left, right, width, hcell, ?_⟩
  have hfirst : ((hyphens left right width).head? == some ':') = left := by
    cases left <;> simp [hyphens, List.replicate_succ]
  have hlast : ((hyphens left right width).getLast? == some ':') = right := by
    cases right <;> simp [hyphens, List.getLast?_append, List.getLast?_replicate]
  rw [hcell]
  unfold alignment?
  rewrite [hfirst, hlast]
  cases left <;> cases right <;> rfl

/-- **The alignments of a table are what the cells of its delimiter row say**, one by one. -/
theorem alignments_aligns {delimiter : Node} (hchild : n.child? .tableDelimiter = some delimiter)
    (hcells : (delimiterCells delimiter.text.toList).all isDelimiterCell = true) :
    List.Forall₂ Aligns (delimiterCells delimiter.text.toList) (alignments n) := by
  have hsome : ∀ cell ∈ delimiterCells delimiter.text.toList, isDelimiterCell cell = true := List.all_eq_true.mp hcells
  have hkept : ((splitPipes delimiter.text.toList).map trim).filter (fun cell => !cell.isEmpty) =
      (delimiterCells delimiter.text.toList).map trim := by
    obtain ⟨front, back, hfront, hback, hsplit⟩ := splitPipes_row delimiter.text.toList
    have hnone : ∀ parts : List (List Char), parts = [] ∨ parts = [[]] →
        (parts.map trim).filter (fun cell => !cell.isEmpty) = [] := by
      rintro _ (rfl | rfl) <;> rfl
    have hall : ((delimiterCells delimiter.text.toList).map trim).filter (fun cell => !cell.isEmpty) =
        (delimiterCells delimiter.text.toList).map trim := by
      refine List.filter_eq_self.mpr fun cell hcell => ?_
      obtain ⟨original, horiginal, rfl⟩ := List.mem_map.mp hcell
      obtain ⟨left, right, width, hhyphens⟩ := isDelimiterCell_spec (hsome original horiginal)
      rw [hhyphens, Bool.not_eq_true', List.isEmpty_eq_false_iff]
      exact hyphens_ne_nil left right width
    rw [hsplit, List.map_append, List.map_append, List.filter_append, List.filter_append, hnone front hfront,
      hnone back hback, hall, List.nil_append, List.append_nil]
  unfold alignments
  rw [hchild]
  dsimp only
  rw [hkept, List.map_map, List.forall₂_map_right_iff]
  exact List.forall₂_same.mpr fun cell hcell => aligns_of_isDelimiterCell (hsome cell hcell)

end ComponentMarkup.Markup
