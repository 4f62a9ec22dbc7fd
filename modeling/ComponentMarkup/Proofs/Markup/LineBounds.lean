import ComponentMarkup.Markup.Block
import ComponentMarkup.Proofs.Markup.HeadTiling
import ComponentMarkup.Proofs.Text.Lines
import Mathlib.Data.List.TakeWhile

/-!
# Where things stand on a line

Whatever the block rules look for on a line, its indentation, a marker, a key or a fence, stands within the
line.  Only the body of a component may end on a later line; it still ends within the text.
-/

namespace ComponentMarkup.Markup

open ComponentMarkup.Text ComponentMarkup.Tree

variable {src : Source} {line : Span}

/-! ## Indentation and white space -/

/-- What is left of a list behind its first elements that satisfy a test. -/
theorem dropWhile_eq_drop {α : Type} (p : α → Bool) (xs : List α) :
    xs.dropWhile p = xs.drop (xs.takeWhile p).length := by
  calc
    xs.dropWhile p = (xs.takeWhile p ++ xs.dropWhile p).drop (xs.takeWhile p).length :=
      List.drop_left.symm
    _ = xs.drop (xs.takeWhile p).length := by rw [List.takeWhile_append_dropWhile]

/-- Trimming makes no text longer. -/
theorem trimEnd_length_le (cs : List Char) : (trimEnd cs).length ≤ cs.length := by
  have hsuffix := (List.dropWhile_suffix isWhitespace (l := cs.reverse)).length_le
  rw [List.length_reverse] at hsuffix
  rwa [trimEnd, List.length_reverse]

/-- The content of a line starts within the line. -/
theorem contentStart_bounds (hle : line.start ≤ line.stop) (hstop : line.stop ≤ src.size) :
    line.start ≤ contentStart src line ∧ contentStart src line ≤ line.stop := by
  have hrun := runLength_le isBlank (lineChars src line)
  rw [lineChars, src.length_slice hstop] at hrun
  unfold contentStart indentOf lineChars
  omega

/-- The characters of a line behind its indentation. -/
theorem unindented_eq : unindented src line = src.slice (contentStart src line) line.stop := by
  rw [unindented, dropWhile_eq_drop, lineChars, src.slice_drop]
  rfl

/-- How many characters stand behind the indentation of a line. -/
theorem length_unindented (hstop : line.stop ≤ src.size) :
    (unindented src line).length = line.stop - contentStart src line := by
  rw [unindented_eq, src.length_slice hstop]

/-- A line that is not blank has some content. -/
theorem contentStart_lt (hstop : line.stop ≤ src.size)
    (hblank : isBlankLine src line = false) : contentStart src line < line.stop := by
  apply Nat.lt_of_not_le
  intro hend
  have hnil : unindented src line = [] := by
    rw [← List.length_eq_zero_iff, length_unindented hstop]
    omega
  have hall : ∀ c ∈ lineChars src line, isBlank c = true := List.dropWhile_eq_nil_iff.mp hnil
  have hwhite : isBlankLine src line = true := by
    refine List.all_eq_true.mpr fun c hc => ?_
    rcases (Bool.or_eq_true _ _).mp (hall c hc) with hc | hc <;>
      rw [eq_of_beq hc] <;> decide
  rw [hwhite] at hblank
  exact absurd hblank (by decide)

/-- A line without some of its indentation ends where it did. -/
theorem strip_bounds (columns : Nat) (hle : line.start ≤ line.stop) (hstop : line.stop ≤ src.size) :
    line.start ≤ (strip src columns line).start ∧
      (strip src columns line).start ≤ (strip src columns line).stop ∧
      (strip src columns line).stop ≤ line.stop := by
  have hbounds := contentStart_bounds hle hstop
  unfold contentStart at hbounds
  unfold strip
  dsimp only
  omega

/-- What is left of a stretch without white space at its ends lies in it. -/
theorem trimmed_bounds (src : Source) {start stop : Nat} (hle : start ≤ stop) (hstop : stop ≤ src.size) :
    start ≤ (trimmed src start stop).start ∧ (trimmed src start stop).stop ≤ stop := by
  have hend := trimEnd_length_le (src.slice start stop)
  rw [src.length_slice hstop] at hend
  unfold trimmed
  dsimp only
  omega

/-- A quoted line goes on behind its marker. -/
theorem unquote_bounds (hquoted : (unindented src line).head? = some '>') :
    contentStart src line < (unquote src line).start ∧
      (unquote src line).start ≤ (unquote src line).stop ∧ (unquote src line).stop = line.stop := by
  rw [unindented_eq] at hquoted
  have hlt := src.lt_of_head?_slice hquoted
  unfold unquote
  dsimp only
  split
  · rename_i hblank
    have hsome : ∃ c, (src.slice (contentStart src line + 1) line.stop).head? = some c := by
      cases hhead : (src.slice (contentStart src line + 1) line.stop).head? with
      | none => exact absurd hblank (by simp [hhead])
      | some c => exact ⟨c, rfl⟩
    obtain ⟨c, hc⟩ := hsome
    have hmore := src.lt_of_head?_slice hc
    refine ⟨?_, hmore, rfl⟩
    show contentStart src line < contentStart src line + 1 + 1
    omega
  · exact ⟨Nat.lt_succ_self _, hlt, rfl⟩

/-! ## Markers -/

/-- The key of an attribute stands between its mark and its colon. -/
theorem attributeKey?_bound {cs : List Char} {n : Nat} (h : attributeKey? cs = some n) :
    n + 3 ≤ cs.length := by
  unfold attributeKey? at h
  split at h
  · rename_i rest
    obtain ⟨m, hword, hcolon⟩ := Option.bind_eq_some_iff.mp h
    split at hcolon
    · rename_i after hdrop
      have hlen := congrArg List.length hdrop
      rw [List.length_drop, List.length_cons] at hlen
      split at hcolon
      · obtain rfl := Option.some.inj hcolon
        simp only [List.length_cons]
        omega
      · exact absurd hcolon (by simp)
    · exact absurd hcolon (by simp)
  · exact absurd h (by simp)

/-- The delimiter of a display formula has two characters. -/
theorem isMathFence_bound {cs : List Char} (h : isMathFence cs = true) : 2 ≤ cs.length := by
  have hlen := trimEnd_length_le cs
  rw [eq_of_beq h] at hlen
  exact hlen

/-- A code fence stands within its line. -/
theorem codeFence?_bound {cs : List Char} {mark : Char} {width : Nat}
    (h : codeFence? cs = some (mark, width)) : width ≤ cs.length := by
  cases cs with
  | nil => exact absurd h (by simp [codeFence?])
  | cons c cs =>
      have hrun := runLength_le (· == c) (c :: cs)
      simp only [codeFence?] at h
      grind

/-- The marker of a heading stands within its line. -/
theorem headingLevel?_bound {cs : List Char} {level : Nat} (h : headingLevel? cs = some level) :
    level ≤ cs.length := by
  have hrun := runLength_le (· == '#') cs
  unfold headingLevel? at h
  dsimp only at h
  split at h
  · obtain rfl := Option.some.inj h
    exact hrun
  · exact absurd h (by simp)

/-- The marker of a list item has some width and stands within its line. -/
theorem ListMarker.read?_bound {cs : List Char} {marker : ListMarker}
    (h : ListMarker.read? cs = some marker) : 1 ≤ marker.width ∧ marker.width ≤ cs.length := by
  unfold ListMarker.read? at h
  split at h
  · exact absurd h (by simp)
  · rename_i c rest
    split at h
    · split at h
      · obtain rfl := Option.some.inj h
        exact ⟨Nat.le_refl 1, by simp⟩
      · exact absurd h (by simp)
    · dsimp only at h
      split at h
      · split at h
        · rename_i d after hdrop
          have hlen := congrArg List.length hdrop
          rw [List.length_drop, List.length_cons, List.length_cons] at hlen
          split at h
          · obtain rfl := Option.some.inj h
            rw [List.length_cons]
            show 1 ≤ runLength isDigit (c :: rest) + 1 ∧ runLength isDigit (c :: rest) + 1 ≤ _
            omega
          · exact absurd h (by simp)
        · exact absurd h (by simp)
      · exact absurd h (by simp)

/-- A task box has three characters. -/
theorem hasTaskBox_bound {cs : List Char} (h : hasTaskBox cs = true) : 3 ≤ cs.length := by
  have htake : (cs.take 3).length = 3 := by
    simp only [hasTaskBox, Bool.and_eq_true, Bool.or_eq_true, beq_iff_eq] at h
    rcases h.1 with (h | h) | h <;> rw [h] <;> rfl
  rw [List.length_take] at htake
  omega

/-! ## Components -/

/-- Where the parts of a component stand behind its head. -/
def ComponentForm.Within (src : Source) (stop : Nat) (head : Head) : ComponentForm → Prop
  | .verbatim close => head.stop + 2 ≤ close ∧ close + 2 ≤ src.size
  | .braced close => head.stop + 1 ≤ close ∧ close + 1 ≤ src.size
  | .composite colon => colon = head.stop ∧ colon + 1 ≤ stop
  | .bare => True

/-- The head of a component stands on its line, and its body ends within the text. -/
theorem componentHeader?_spec {start stop : Nat} {head : Head} {form : ComponentForm}
    (h : componentHeader? src start stop = some (head, form)) (hstop : stop ≤ src.size) :
    start < head.stop ∧ head.stop ≤ stop ∧ Run src.Holds start head.stop (head.nodes src) ∧
      form.Within src stop head := by
  obtain ⟨head', hread, hform⟩ := Option.bind_eq_some_iff.mp h
  obtain ⟨_, hsigil, hlimit, hrun⟩ := Head.read?_run hread hstop
  have hhead : head' = head ∧ form.Within src stop head' := by
    split at hform
    · obtain ⟨n, hlength, hrest⟩ := Option.bind_eq_some_iff.mp hform
      have hlen := verbatimLength?_lt hlength
      rw [Source.after, src.length_slice (Nat.le_refl _)] at hlen
      dsimp only at hrest
      split at hrest
      · obtain ⟨rfl, rfl⟩ := Prod.mk.inj (Option.some.inj hrest)
        refine ⟨rfl, Nat.le_add_right _ _, ?_⟩
        omega
      · exact absurd hrest (by simp)
    · obtain ⟨n, hlength, hrest⟩ := Option.bind_eq_some_iff.mp hform
      have hlen := closingBrace?_lt hlength
      rw [Source.after, src.length_slice (Nat.le_refl _)] at hlen
      dsimp only at hrest
      split at hrest
      · obtain ⟨rfl, rfl⟩ := Prod.mk.inj (Option.some.inj hrest)
        refine ⟨rfl, Nat.le_add_right _ _, ?_⟩
        omega
      · exact absurd hrest (by simp)
    · split at hform
      · exact absurd hform (by simp)
      · split at hform
        · rename_i after hrest
          split at hform
          · obtain ⟨rfl, rfl⟩ := Prod.mk.inj (Option.some.inj hform)
            exact ⟨rfl, rfl, src.lt_of_slice_cons hrest⟩
          · exact absurd hform (by simp)
        · split at hform
          · obtain ⟨rfl, rfl⟩ := Prod.mk.inj (Option.some.inj hform)
            exact ⟨rfl, trivial⟩
          · exact absurd hform (by simp)
  obtain ⟨rfl, hwithin⟩ := hhead
  exact ⟨by omega, hlimit, hrun, hwithin⟩

end ComponentMarkup.Markup
