import ComponentMarkup.Proofs.Text.Lines
import ComponentMarkup.Proofs.Text.Slices
import Mathlib.Data.List.Chain

/-!
# What stands between lines

Between a line and the next there is one line end, and behind it what the blocks around take off the next line:
indentation and, inside quotations, their markers.  A line itself holds no line end.  Lines stay like that when a part
of them is looked at, and when more is taken off where they start.

* `IsLineEnd`, `IsLineBreak` — what ends a line, and what stands between two lines;
* `LineEndOf` — the line ends of a stretch;
* `Page` — lines with line breaks between them and none inside;
* `lineSpans_lineEnds` — between the lines of a stretch there are its line ends;
* `lineSpans_page` — the lines of a stretch are such a page;
* `Page.left`, `Page.right`, `Page.narrow`, `Page.narrowFirst` — parts of a page, and a page with less on its lines.
-/

namespace ComponentMarkup.Text

/-- A text that is one line end.  A carriage return and the line feed after it are one. -/
def IsLineEnd (cs : List Char) : Prop :=
  cs = ['\r', '\n'] ∨ ∃ c, isNewline c = true ∧ cs = [c]

/-- A line end of a stretch.  A carriage return counts alone only if no line feed follows it in the stretch, and a line
feed only if no carriage return stands before it there. -/
structure LineEndOf (src : Source) (s e : Span) : Prop where
  start_le : s.start ≤ e.start
  stop_le : e.stop ≤ s.stop
  isLineEnd : IsLineEnd (src.slice e.start e.stop)
  ahead : src.slice e.start e.stop = ['\r'] → (src.slice e.stop s.stop).head? ≠ some '\n'
  behind : src.slice e.start e.stop = ['\n'] → (src.slice s.start e.start).getLast? ≠ some '\r'

/-- What may stand before the content of a line: indentation, and markers of quotations if there is one. -/
def IsMargin (quoted : Prop) (c : Char) : Prop :=
  isBlank c = true ∨ quoted ∧ c = '>'

/-- A line end, and then what may stand before the content of the next line. -/
def IsLineBreak (quoted : Prop) (cs : List Char) : Prop :=
  ∃ ending margin, cs = ending ++ margin ∧ IsLineEnd ending ∧ ∀ c ∈ margin, IsMargin quoted c

/-- Stretches with line breaks between them. -/
abbrev Breaks (src : Source) (quoted : Prop) (lines : List Span) : Prop :=
  lines.IsChain fun a b => a.stop ≤ b.start ∧ IsLineBreak quoted (src.slice a.stop b.start)

/-- Lines with line breaks between them and none inside. -/
structure Page (src : Source) (quoted : Prop) (lines : List Span) : Prop where
  breaks : Breaks src quoted lines
  clean : ∀ line ∈ lines, ∀ c ∈ src.slice line.start line.stop, isNewline c = false

variable {src : Source} {quoted : Prop} {lines : List Span}

theorem IsMargin.mono {quoted' : Prop} {c : Char} (h : IsMargin quoted c) (himp : quoted → quoted') :
    IsMargin quoted' c :=
  h.imp_right fun hmark => ⟨himp hmark.1, hmark.2⟩

theorem IsLineBreak.mono {quoted' : Prop} {cs : List Char} (h : IsLineBreak quoted cs) (himp : quoted → quoted') :
    IsLineBreak quoted' cs := by
  obtain ⟨ending, margin, hsplit, hending, hmargin⟩ := h
  exact ⟨ending, margin, hsplit, hending, fun c hc => (hmargin c hc).mono himp⟩

/-- More may stand before the content of the next line. -/
theorem IsLineBreak.append {cs more : List Char} (h : IsLineBreak quoted cs) (hmore : ∀ c ∈ more, IsMargin quoted c) :
    IsLineBreak quoted (cs ++ more) := by
  obtain ⟨ending, margin, rfl, hending, hmargin⟩ := h
  refine ⟨ending, margin ++ more, List.append_assoc _ _ _, hending, fun c hc => ?_⟩
  rcases List.mem_append.mp hc with hc | hc
  · exact hmargin c hc
  · exact hmore c hc

theorem IsLineEnd.ne_nil {cs : List Char} (h : IsLineEnd cs) : cs ≠ [] := by
  rcases h with rfl | ⟨c, _, rfl⟩
  · exact List.cons_ne_nil _ _
  · exact List.cons_ne_nil _ _

theorem IsLineEnd.isNewline {cs : List Char} (h : IsLineEnd cs) : ∀ c ∈ cs, Text.isNewline c = true := by
  rcases h with rfl | ⟨c, hc, rfl⟩
  · exact List.forall_mem_cons.mpr ⟨rfl, List.forall_mem_singleton.mpr rfl⟩
  · exact List.forall_mem_singleton.mpr hc

/-- A line end does not stop where it starts. -/
theorem LineEndOf.lt {s e : Span} (h : LineEndOf src s e) : e.start < e.stop := by
  obtain ⟨c, cs, hcs⟩ := List.exists_cons_of_ne_nil h.isLineEnd.ne_nil
  exact src.lt_of_slice_cons hcs

/-- Line ends are white space. -/
theorem isWhitespace_of_isNewline {c : Char} (h : isNewline c = true) : isWhitespace c = true := by
  simp only [isNewline, isWhitespace, Bool.or_eq_true, Bool.and_eq_true, decide_eq_true_eq, beq_iff_eq] at h ⊢
  omega

/-- Indentation is white space. -/
theorem isWhitespace_of_isBlank {c : Char} (h : isBlank c = true) : isWhitespace c = true := by
  simp only [isBlank, Bool.or_eq_true, beq_iff_eq] at h
  rcases h with rfl | rfl <;> rfl

/-! ## The lines of a stretch -/

/-- A line starts where it is said to start. -/
theorem cutLines_cons (start here : Nat) (cs : List Char) :
    ∃ stop lines, cutLines start here cs = ⟨start, stop⟩ :: lines := by
  fun_induction cutLines start here cs with
  | case4 start here c cs hpair hnewline ih => exact ih
  | _ => exact ⟨_, _, rfl⟩

/-- Between the lines of a text there are its line ends.  What stands before the text may end in a carriage return only
if the text does not start with a line feed. -/
theorem cutLines_lineEnds {lo start here stop : Nat} (cs : List Char) (h : src.slice here stop = cs) (hlo : lo ≤ here)
    (hbehind : (src.slice lo here).getLast? = some '\r' → cs.head? ≠ some '\n') :
    (cutLines start here cs).IsChain fun a b => LineEndOf src ⟨lo, stop⟩ ⟨a.stop, b.start⟩ := by
  fun_induction cutLines start here cs with
  | case1 start here => exact .singleton _
  | case2 start here cs ih =>
      obtain ⟨next, lines, hlines⟩ := cutLines_cons (here + 2) (here + 2) cs
      have hgap : src.slice here (here + 2) = ['\r', '\n'] := Source.slice_prefix (show _ = ['\r', '\n'] ++ cs from h)
      have htail := src.slice_tail h
      have hrest := ih (src.slice_tail htail) (Nat.le_add_right_of_le hlo) (by
        rw [Source.getLast?_slice hgap (List.cons_ne_nil _ _) hlo (Nat.le_add_right here 2)]
        exact fun hlast => absurd hlast (by decide))
      have hend : LineEndOf src ⟨lo, stop⟩ ⟨here, here + 2⟩ :=
        { start_le := hlo
          stop_le := src.lt_of_slice_cons htail
          isLineEnd := .inl hgap
          ahead := fun hone => absurd (hgap.symm.trans hone) (by decide)
          behind := fun hone => absurd (hgap.symm.trans hone) (by decide) }
      rw [hlines] at hrest ⊢
      exact List.isChain_cons_cons.mpr ⟨hend, hrest⟩
  | case3 start here c cs hpair hnewline ih =>
      obtain ⟨next, lines, hlines⟩ := cutLines_cons (here + 1) (here + 1) cs
      have hgap : src.slice here (here + 1) = [c] := Source.slice_prefix (show _ = [c] ++ cs from h)
      have htail := src.slice_tail h
      have halone : c = '\r' → cs.head? ≠ some '\n' := by
        rintro rfl hfeed
        obtain ⟨rest, rfl⟩ := List.head?_eq_some_iff.mp hfeed
        exact hpair rest rfl rfl
      have hrest := ih htail (Nat.le_succ_of_le hlo) (by
        rw [Source.getLast?_slice hgap (List.cons_ne_nil _ _) hlo (Nat.le_succ here), List.getLast?_singleton]
        exact fun hlast => halone (Option.some.inj hlast))
      have hend : LineEndOf src ⟨lo, stop⟩ ⟨here, here + 1⟩ :=
        { start_le := hlo
          stop_le := src.lt_of_slice_cons h
          isLineEnd := .inr ⟨c, hnewline, hgap⟩
          ahead := by
            intro hone
            show (src.slice (here + 1) stop).head? ≠ _
            rw [htail]
            exact halone (List.cons.inj (hgap.symm.trans hone)).1
          behind := fun hone hlast => hbehind hlast (congrArg some (List.cons.inj (hgap.symm.trans hone)).1) }
      rw [hlines] at hrest ⊢
      exact List.isChain_cons_cons.mpr ⟨hend, hrest⟩
  | case4 start here c cs hpair hnewline ih =>
      have hone : src.slice here (here + 1) = [c] := Source.slice_prefix (show _ = [c] ++ cs from h)
      refine ih (src.slice_tail h) (Nat.le_succ_of_le hlo) ?_
      rw [Source.getLast?_slice hone (List.cons_ne_nil _ _) hlo (Nat.le_succ here), List.getLast?_singleton]
      rintro ⟨⟩
      exact absurd rfl hnewline

/-- The lines of a text hold no line ends. -/
theorem cutLines_clean {start here stop : Nat} (cs : List Char) (h : src.slice here stop = cs) (hle : start ≤ here)
    (hclean : ∀ c ∈ src.slice start here, isNewline c = false) :
    ∀ line ∈ cutLines start here cs, ∀ c ∈ src.slice line.start line.stop, isNewline c = false := by
  have hempty : ∀ place, ∀ c ∈ src.slice place place, isNewline c = false := by
    intro place c hc
    rw [src.slice_self] at hc
    exact absurd hc List.not_mem_nil
  fun_induction cutLines start here cs with
  | case1 start here => exact List.forall_mem_singleton.mpr hclean
  | case2 start here cs ih =>
      exact List.forall_mem_cons.mpr ⟨hclean, ih (src.slice_tail (src.slice_tail h)) (Nat.le_refl _) (hempty _)⟩
  | case3 start here c cs hpair hnewline ih =>
      exact List.forall_mem_cons.mpr ⟨hclean, ih (src.slice_tail h) (Nat.le_refl _) (hempty _)⟩
  | case4 start here c cs hpair hnewline ih =>
      refine ih (src.slice_tail h) (Nat.le_succ_of_le hle) fun d hd => ?_
      have hone : src.slice here (here + 1) = [c] := Source.slice_prefix (show _ = [c] ++ cs from h)
      rw [← src.slice_append hle (Nat.le_succ here), List.mem_append, hone, List.mem_singleton] at hd
      rcases hd with hd | rfl
      · exact hclean d hd
      · exact Bool.eq_false_iff.mpr hnewline

/-- **Between the lines of a stretch there are its line ends.** -/
theorem lineSpans_lineEnds (src : Source) (s : Span) :
    (lineSpans src s).IsChain fun a b => LineEndOf src s ⟨a.stop, b.start⟩ := by
  refine cutLines_lineEnds _ rfl (Nat.le_refl _) fun hlast => ?_
  rw [src.slice_self] at hlast
  exact absurd hlast.symm (Option.some_ne_none _)

/-- Between the lines of a stretch there are line ends. -/
theorem lineSpans_ends (src : Source) (s : Span) :
    (lineSpans src s).IsChain fun a b => a.stop ≤ b.start ∧ IsLineEnd (src.slice a.stop b.start) :=
  (lineSpans_lineEnds src s).imp fun _ _ h => ⟨Nat.le_of_lt h.lt, h.isLineEnd⟩

/-- **The lines of a stretch are a page**, whether it is quoted or not. -/
theorem lineSpans_page (src : Source) (quoted : Prop) (s : Span) : Page src quoted (lineSpans src s) where
  breaks := (lineSpans_ends src s).imp fun _ _ h =>
    ⟨h.1, _, [], (List.append_nil _).symm, h.2, fun _ hc => absurd hc List.not_mem_nil⟩
  clean := by
    refine cutLines_clean _ rfl (Nat.le_refl _) fun c hc => ?_
    rw [src.slice_self] at hc
    exact absurd hc List.not_mem_nil

/-! ## Pages -/

namespace Page

theorem nil : Page src quoted [] :=
  ⟨.nil, fun _ hline => absurd hline List.not_mem_nil⟩

theorem left {first last : List Span} (h : Page src quoted (first ++ last)) : Page src quoted first :=
  ⟨h.breaks.left_of_append, fun line hline => h.clean line (List.mem_append_left last hline)⟩

theorem right {first last : List Span} (h : Page src quoted (first ++ last)) : Page src quoted last :=
  ⟨h.breaks.right_of_append, fun line hline => h.clean line (List.mem_append_right first hline)⟩

/-- A page with more taken off where its lines start. -/
theorem narrow {f : Span → Span} {quoted' : Prop} (h : Page src quoted lines) (himp : quoted → quoted')
    (hf : ∀ line ∈ lines, line.start ≤ (f line).start ∧ (f line).stop = line.stop ∧
      ∀ c ∈ src.slice line.start (f line).start, IsMargin quoted' c) : Page src quoted' (lines.map f) := by
  refine ⟨List.isChain_map f |>.mpr (h.breaks.imp_of_mem_imp fun a b ha hb hab => ?_), fun line hline c hc => ?_⟩
  · obtain ⟨-, hstop, -⟩ := hf a ha
    obtain ⟨hle, -, hmargin⟩ := hf b hb
    rw [hstop, ← src.slice_append hab.1 hle]
    exact ⟨Nat.le_trans hab.1 hle, (hab.2.mono himp).append hmargin⟩
  · obtain ⟨old, hold, rfl⟩ := List.mem_map.mp hline
    obtain ⟨hle, hstop, -⟩ := hf old hold
    obtain ⟨p, hfrom, hto, hp⟩ := Source.mem_slice.mp hc
    exact h.clean old hold c (Source.mem_slice.mpr ⟨p, Nat.le_trans hle hfrom, hstop ▸ hto, hp⟩)

/-- A first line that is narrowed. -/
theorem narrowFirst {line s : Span} (h : Page src quoted (line :: lines)) (hstart : line.start ≤ s.start)
    (hstop : s.stop = line.stop) : Page src quoted (s :: lines) := by
  refine ⟨?_, fun l hl c hc => ?_⟩
  · have hbreaks := h.breaks
    cases lines with
    | nil => exact .singleton s
    | cons next lines =>
        obtain ⟨hfirst, hrest⟩ := List.isChain_cons_cons.mp hbreaks
        exact List.isChain_cons_cons.mpr ⟨hstop ▸ hfirst, hrest⟩
  · rcases List.mem_cons.mp hl with rfl | hl
    · obtain ⟨p, hfrom, hto, hp⟩ := Source.mem_slice.mp hc
      exact h.clean line List.mem_cons_self c
        (Source.mem_slice.mpr ⟨p, Nat.le_trans hstart hfrom, hstop ▸ hto, hp⟩)
    · exact h.clean l (List.mem_cons_of_mem _ hl) c hc

end Page

end ComponentMarkup.Text
