import ComponentMarkup.Proofs.Markup.BlockTiling
import ComponentMarkup.Proofs.Markup.Formed
import ComponentMarkup.Proofs.Tree.Within
import ComponentMarkup.Proofs.Text.LineBreaks

/-!
# What blocks leave out

The nodes of blocks do not cover all of their lines.  Indentation, white space at the end of a line, and in quotations
the markers in front of it are left out, and so are the line ends.  Such places are idle: nothing that was written as
content stands there.  What is known about a list of lines, about a rule and about the blocks inside a block is always
the same: stretches keep what others hold, up to idle places.

* `IsIdle` — a place without content;
* `Keeps` — stretches that hold what others hold, up to idle places; `Keeps.trans`, `Keeps.join` put this together;
* `page_keeps` — between lines all places are idle;
* `fill_formed`, `filled_formed` — gaps are formed if the nodes between them keep what is written.
-/

namespace ComponentMarkup.Markup

open ComponentMarkup.Text ComponentMarkup.Tree

/-- A place with nothing but white space, or with the marker of a quotation if there is one. -/
def IsIdle (src : Source) (quoted : Prop) (p : Nat) : Prop :=
  ∀ c, src.chars[p]? = some c → isWhitespace c = true ∨ quoted ∧ c = '>'

/-- A place that lies in one of several stretches. -/
def LiesIn (spans : List Span) (p : Nat) : Prop :=
  ∃ s ∈ spans, s.start ≤ p ∧ p < s.stop

/-- Stretches that hold what others hold: each place of the others is idle, or lies in one of them. -/
def Keeps (src : Source) (quoted : Prop) (outer inner : List Span) : Prop :=
  ∀ p, LiesIn outer p → IsIdle src quoted p ∨ LiesIn inner p

variable {src : Source} {quoted : Prop} {line : Span} {lines outer inner more : List Span} {a b p : Nat}

theorem IsIdle.mono {quoted' : Prop} (h : IsIdle src quoted p) (himp : quoted → quoted') : IsIdle src quoted' p :=
  fun c hc => (h c hc).imp_right fun hmark => ⟨himp hmark.1, hmark.2⟩

theorem isIdle_of_white (h : ∀ c, src.chars[p]? = some c → isWhitespace c = true) : IsIdle src quoted p :=
  fun c hc => .inl (h c hc)

/-- What may stand in front of a line is idle. -/
theorem isIdle_of_margin (h : ∀ c ∈ src.slice a b, IsMargin quoted c) (hfrom : a ≤ p) (hto : p < b) :
    IsIdle src quoted p :=
  fun c hc => (h c (Source.mem_slice.mpr ⟨p, hfrom, hto, hc⟩)).imp_left isWhitespace_of_isBlank

theorem liesIn_single {s : Span} : LiesIn [s] p ↔ s.start ≤ p ∧ p < s.stop := by
  simp [LiesIn]

theorem liesIn_append : LiesIn (outer ++ inner) p ↔ LiesIn outer p ∨ LiesIn inner p := by
  simp only [LiesIn, List.mem_append, or_and_right, exists_or]

theorem LiesIn.mono (h : LiesIn outer p) (hsub : outer ⊆ inner) : LiesIn inner p :=
  h.imp fun _ hs => ⟨hsub hs.1, hs.2⟩

namespace Keeps

theorem refl (spans : List Span) : Keeps src quoted spans spans :=
  fun _ hp => .inr hp

theorem trans (h : Keeps src quoted outer inner) (h' : Keeps src quoted inner more) : Keeps src quoted outer more :=
  fun p hp => (h p hp).elim .inl (h' p)

theorem mono {quoted' : Prop} (h : Keeps src quoted outer inner) (himp : quoted → quoted') :
    Keeps src quoted' outer inner :=
  fun p hp => (h p hp).imp_left fun hidle => hidle.mono himp

/-- More stretches hold as much. -/
theorem subset (h : Keeps src quoted outer inner) (hsub : inner ⊆ more) : Keeps src quoted outer more :=
  fun p hp => (h p hp).imp_right fun hin => hin.mono hsub

theorem nil (inner : List Span) : Keeps src quoted [] inner :=
  fun _ hp => absurd hp (by simp [LiesIn])

theorem append {outer' : List Span} (h : Keeps src quoted outer inner) (h' : Keeps src quoted outer' inner) :
    Keeps src quoted (outer ++ outer') inner :=
  fun p hp => (liesIn_append.mp hp).elim (h p) (h' p)

theorem cons {s : Span} (h : Keeps src quoted [s] inner) (h' : Keeps src quoted outer inner) :
    Keeps src quoted (s :: outer) inner :=
  append h h'

/-- Two stretches that touch. -/
theorem join {mid : Nat} (h : Keeps src quoted [⟨a, mid⟩] inner) (h' : Keeps src quoted [⟨mid, b⟩] inner) :
    Keeps src quoted [⟨a, b⟩] inner := by
  intro p hp
  obtain ⟨hfrom, hto⟩ := liesIn_single.mp hp
  by_cases hmid : p < mid
  · exact h p (liesIn_single.mpr ⟨hfrom, hmid⟩)
  · exact h' p (liesIn_single.mpr ⟨Nat.le_of_not_lt hmid, hto⟩)

/-- A part of one of the stretches. -/
theorem part {s t : Span} (hmem : t ∈ inner) (hstart : t.start ≤ s.start) (hstop : s.stop ≤ t.stop) :
    Keeps src quoted [s] inner := by
  intro p hp
  obtain ⟨hfrom, hto⟩ := liesIn_single.mp hp
  exact .inr ⟨t, hmem, Nat.le_trans hstart hfrom, Nat.lt_of_lt_of_le hto hstop⟩

/-- The first of the stretches. -/
theorem first (s : Span) (inner : List Span) : Keeps src quoted [s] (s :: inner) :=
  part List.mem_cons_self (Nat.le_refl _) (Nat.le_refl _)

/-- An idle stretch. -/
theorem idle (h : ∀ p, a ≤ p → p < b → IsIdle src quoted p) : Keeps src quoted [⟨a, b⟩] inner :=
  fun p hp => .inl (h p (liesIn_single.mp hp).1 (liesIn_single.mp hp).2)

/-- A stretch of white space. -/
theorem white (h : ∀ c ∈ src.slice a b, isWhitespace c = true) : Keeps src quoted [⟨a, b⟩] inner :=
  idle fun p hfrom hto => isIdle_of_white fun c hc => h c (Source.mem_slice.mpr ⟨p, hfrom, hto, hc⟩)

/-- An empty stretch. -/
theorem empty (h : b ≤ a) : Keeps src quoted [⟨a, b⟩] inner :=
  idle fun _ hfrom hto => absurd (Nat.lt_of_lt_of_le hto h) (Nat.not_lt.mpr hfrom)

/-- Stretches are kept if each of them is. -/
theorem each (h : ∀ s ∈ outer, Keeps src quoted [s] inner) : Keeps src quoted outer inner := by
  rintro p ⟨s, hs, hin⟩
  exact h s hs p (liesIn_single.mpr hin)

/-- Stretches are kept by others that keep one each. -/
theorem map {f : Span → Span} (h : ∀ s ∈ outer, Keeps src quoted [s] [f s]) :
    Keeps src quoted outer (outer.map f) :=
  each fun s hs => (h s hs).subset fun _ ht => List.mem_map.mpr ⟨s, hs, (List.mem_singleton.mp ht).symm⟩

/-- Nodes in a row keep what they cover. -/
theorem run {nodes : List Node} (h : Run src.Holds a b nodes) : Keeps src quoted [⟨a, b⟩] (nodes.map Node.span) := by
  intro p hp
  obtain ⟨n, hn, hin⟩ := h.covered (liesIn_single.mp hp).1 (liesIn_single.mp hp).2
  exact .inr ⟨n.span, List.mem_map_of_mem hn, hin⟩

end Keeps

/-- One of several nodes keeps what it covers. -/
theorem Keeps.node {n : Node} {nodes : List Node} (hn : n ∈ nodes) (hstart : n.start ≤ a) (hstop : b ≤ n.stop) :
    Keeps src quoted [⟨a, b⟩] (nodes.map Node.span) :=
  .part (List.mem_map_of_mem hn) hstart hstop

/-- A leaf among several nodes. -/
theorem Keeps.leaf (kind : MarkupKind) {nodes : List Node} (h : leafOf src kind a b ∈ nodes) :
    Keeps src quoted [⟨a, b⟩] (nodes.map Node.span) :=
  .node h (Nat.le_refl a) (Nat.le_refl b)

/-- More nodes keep as much. -/
theorem Keeps.among {nodes others : List Node} (h : Keeps src quoted outer (nodes.map Node.span))
    (hsub : nodes ⊆ others) : Keeps src quoted outer (others.map Node.span) :=
  h.subset (List.map_subset Node.span hsub)

/-- A leaf over a stretch, or none if the stretch is empty. -/
theorem keeps_optionalLeaf (src : Source) (quoted : Prop) (kind : MarkupKind) (a b : Nat) :
    Keeps src quoted [⟨a, b⟩] ((if a < b then [leafOf src kind a b] else []).map Node.span) := by
  split
  · exact .leaf kind (List.mem_singleton_self _)
  · exact .empty (by omega)

/-- A leaf on each of several lines. -/
theorem keeps_leaves (kind : MarkupKind) {first last : Span → Nat}
    (h : ∀ l ∈ lines, Keeps src quoted [l] [⟨first l, last l⟩]) :
    Keeps src quoted lines ((lines.map fun l => leafOf src kind (first l) (last l)).map Node.span) := by
  rw [List.map_map]
  exact .map h

/-- A leaf over all lines of a body. -/
theorem keeps_bodyLeaf (src : Source) (quoted : Prop) (kind : MarkupKind) {lo hi : Nat} (h : Lines lo hi lines) :
    Keeps src quoted lines ((bodyLeaf src kind lines).map Node.span) := by
  cases lines with
  | nil => exact .nil _
  | cons first later =>
      have hlast : (first :: later).getLast? = some ((first :: later).getLast (List.cons_ne_nil _ _)) :=
        List.getLast?_eq_some_getLast _
      have hstop : ((first :: later).getLast (List.cons_ne_nil _ _)).stop = lastStop first.stop later := by
        rw [← lastStop_cons lo, lastStop, hlast]
        rfl
      unfold bodyLeaf
      rw [List.head?_cons, hlast]
      dsimp only
      rw [hstop]
      refine .each fun l hl => ?_
      have hbounds := (Region.of_lines h).lines.mem hl
      exact .node (List.mem_singleton_self _) hbounds.1 hbounds.2.2

/-! ## Parts of lines -/

/-- Indentation is idle. -/
theorem keeps_indent (src : Source) (quoted : Prop) (line : Span) (inner : List Span) :
    Keeps src quoted [⟨line.start, contentStart src line⟩] inner :=
  .idle fun _ hfrom hto => isIdle_of_white fun _ hc => isWhitespace_of_isBlank (Source.of_runLength hfrom hto hc)

/-- What is trimmed off at the ends of a stretch is white space. -/
theorem trimmed_white {c : Char} (hfrom : a ≤ p) (hto : p < b)
    (hout : ¬((trimmed src a b).start ≤ p ∧ p < (trimmed src a b).stop)) (hc : src.chars[p]? = some c) :
    isWhitespace c = true := by
  by_cases hbefore : p < (trimmed src a b).start
  · exact Source.of_runLength hfrom hbefore hc
  · have hbehind : a + (trimEnd (src.slice a b)).length ≤ p := by
      by_contra hlt
      exact hout ⟨Nat.le_of_not_lt hbefore, Nat.lt_of_not_le hlt⟩
    refine drop_trimEnd_white (src.slice a b) c ?_
    rw [src.slice_drop]
    exact Source.mem_slice.mpr ⟨p, hbehind, hto, hc⟩

/-- What is trimmed off at the ends of a stretch is idle. -/
theorem keeps_trimmed (h : (trimmed src a b).start < (trimmed src a b).stop → trimmed src a b ∈ inner) :
    Keeps src quoted [⟨a, b⟩] inner := by
  intro p hp
  obtain ⟨hfrom, hto⟩ := liesIn_single.mp hp
  by_cases hin : (trimmed src a b).start ≤ p ∧ p < (trimmed src a b).stop
  · exact .inr ⟨_, h (Nat.lt_of_le_of_lt hin.1 hin.2), hin⟩
  · exact .inl (isIdle_of_white fun c hc => trimmed_white hfrom hto hin hc)

/-- White space at the end of a line is idle. -/
theorem keeps_lineEnd (src : Source) (quoted : Prop) (line : Span) (inner : List Span) :
    Keeps src quoted [⟨rowStop src line, line.stop⟩] inner := by
  refine .white fun c hc => drop_trimEnd_white (unindented src line) c ?_
  rw [unindented_eq, src.slice_drop, ← unindented_eq]
  exact hc

/-- What is left of a line behind a place, if there is nothing but white space, is idle. -/
theorem keeps_restIsBlank {place : Nat} (h : restIsBlank src place = true)
    (hclean : ∀ c ∈ src.slice place b, isNewline c = false) (hb : b ≤ src.size) :
    Keeps src quoted [⟨place, b⟩] inner := by
  by_cases hle : place ≤ b
  · refine .white fun c hc => ?_
    have hafter : src.after place = src.slice place b ++ src.after b := (src.slice_append hle hb).symm
    refine List.all_eq_true.mp h c ?_
    rw [hafter, List.takeWhile_append_of_pos]
    · exact List.mem_append_left _ hc
    · intro d hd
      rw [hclean d hd]
      rfl
  · exact .empty (Nat.le_of_not_le hle)

/-- A blank line is idle. -/
theorem keeps_blankLine (h : isBlankLine src line = true) : Keeps src quoted [line] inner :=
  .white fun c hc => List.all_eq_true.mp h c hc

/-- A line without some of its indentation. -/
theorem strip_margin (src : Source) (quoted : Prop) (columns : Nat) (line : Span) :
    ∀ c ∈ src.slice line.start (strip src columns line).start, IsMargin quoted c := by
  intro c hc
  obtain ⟨p, hfrom, hto, hp⟩ := Source.mem_slice.mp hc
  exact .inl (Source.of_runLength hfrom (Nat.lt_of_lt_of_le hto (Nat.add_le_add_left (Nat.min_le_left _ _) _)) hp)

/-- A line without its indentation. -/
theorem content_margin (src : Source) (quoted : Prop) (line : Span) :
    ∀ c ∈ src.slice line.start (contentStart src line), IsMargin quoted c := by
  intro c hc
  obtain ⟨p, hfrom, hto, hp⟩ := Source.mem_slice.mp hc
  exact .inl (Source.of_runLength hfrom hto hp)

/-- A quoted line without its marker. -/
theorem unquote_margin (hquoted : (unindented src line).head? = some '>') :
    ∀ c ∈ src.slice line.start (unquote src line).start, IsMargin True c := by
  intro c hc
  obtain ⟨p, hfrom, hto, hp⟩ := Source.mem_slice.mp hc
  rw [unindented_eq] at hquoted
  have hmark := src.lt_of_head?_slice hquoted
  rw [Source.head?_slice hmark] at hquoted
  by_cases hindent : p < contentStart src line
  · exact .inl (Source.of_runLength hfrom hindent hp)
  by_cases hsame : p = contentStart src line
  · subst hsame
    rw [hquoted] at hp
    exact .inr ⟨trivial, (Option.some.inj hp).symm⟩
  -- only the blank behind the marker is left
  unfold unquote at hto
  dsimp only at hto
  split at hto
  · rename_i hblank
    have hplace : p = contentStart src line + 1 := by
      have hlt : p < contentStart src line + 1 + 1 := hto
      omega
    subst hplace
    cases hhead : (src.slice (contentStart src line + 1) line.stop).head? with
    | none =>
        rw [hhead] at hblank
        exact absurd hblank Bool.false_ne_true
    | some d =>
        rw [Source.head?_slice (src.lt_of_head?_slice hhead), hp] at hhead
        obtain rfl := Option.some.inj hhead
        rw [Source.head?_slice (Nat.lt_of_not_le fun hle => ?_), hp] at hblank
        · exact .inl hblank
        · have hnil : src.slice (contentStart src line + 1) line.stop = [] := by
            rw [src.slice_eq, Nat.sub_eq_zero_of_le hle, List.take_zero]
          rw [hnil] at hblank
          exact absurd hblank Bool.false_ne_true
  · have hlt : p < contentStart src line + 1 := hto
    omega

/-- A line of which something that may stand in front of a line is taken off. -/
theorem keeps_margin {s : Span} (hmargin : ∀ c ∈ src.slice line.start s.start, IsMargin quoted c)
    (hstop : s.stop = line.stop) : Keeps src quoted [line] [s] := by
  have hfront : Keeps src quoted [⟨line.start, s.start⟩] [s] :=
    .idle fun _ hfrom hto => isIdle_of_margin hmargin hfrom hto
  exact hfront.join (.part (List.mem_singleton_self s) (Nat.le_refl _) (Nat.le_of_eq hstop.symm))

/-- A line without its indentation. -/
theorem keeps_content (src : Source) (quoted : Prop) (line : Span) :
    Keeps src quoted [line] [⟨contentStart src line, line.stop⟩] :=
  keeps_margin (content_margin src quoted line) rfl

/-- A line without its indentation and the white space at its end. -/
theorem keeps_row (src : Source) (quoted : Prop) (line : Span) :
    Keeps src quoted [line] [⟨contentStart src line, rowStop src line⟩] := by
  have hindent : Keeps src quoted [⟨line.start, contentStart src line⟩] [⟨contentStart src line, rowStop src line⟩] :=
    keeps_indent src quoted line _
  exact hindent.join ((Keeps.first _ []).join (keeps_lineEnd src quoted line _))

/-! ## Lines -/

/-- What is between two lines is idle. -/
theorem keeps_break (h : IsLineBreak quoted (src.slice a b)) : Keeps src quoted [⟨a, b⟩] inner := by
  obtain ⟨ending, margin, hsplit, hending, hmargin⟩ := h
  refine .idle fun p hfrom hto c hc => ?_
  have hmem : c ∈ src.slice a b := Source.mem_slice.mpr ⟨p, hfrom, hto, hc⟩
  rw [hsplit, List.mem_append] at hmem
  rcases hmem with hmem | hmem
  · exact .inl (isWhitespace_of_isNewline (hending.isNewline c hmem))
  · exact (hmargin c hmem).imp_left isWhitespace_of_isBlank

/-- **Lines keep the stretch from the first to the last of them.** -/
theorem page_keeps (h : Page src quoted (line :: lines)) :
    Keeps src quoted [⟨line.start, lastStop line.stop lines⟩] (line :: lines) := by
  induction lines generalizing line with
  | nil => exact .first line []
  | cons next lines ih =>
      have hrest := ih (show Page src quoted ([line] ++ next :: lines) from h).right
      have hbreak := (List.isChain_cons_cons.mp h.breaks).1.2
      rw [lastStop_cons]
      have hmid : Keeps src quoted [⟨line.stop, next.start⟩] (line :: next :: lines) := keeps_break hbreak
      exact (Keeps.first line _).join (hmid.join (hrest.subset (List.subset_cons_self _ _)))

/-! ## Gaps -/

/-- A leaf of a gap: white space, or the marker of a quotation. -/
def IsGapLeaf (src : Source) (n : Node) : Prop :=
  (∃ a b, n = leafOf src .space a b ∧ ∀ c ∈ src.slice a b, c ≠ '>') ∨
    ∃ a, n = leafOf src .quoteMarker a (a + 1) ∧ src.slice a (a + 1) = ['>']

/-- A leaf of a gap without content. -/
theorem IsGapLeaf.formed {n : Node} (h : IsGapLeaf src n)
    (hidle : ∀ p, n.start ≤ p → p < n.stop → IsIdle src quoted p) : Formed src quoted n := by
  rcases h with ⟨a, b, rfl, hplain⟩ | ⟨a, rfl, hmark⟩
  · refine .space (List.all_eq_true.mpr fun c hc => ?_)
    rw [Source.text, String.toList_ofList] at hc
    obtain ⟨p, hfrom, hto, hp⟩ := Source.mem_slice.mp hc
    exact (hidle p hfrom hto c hp).resolve_right fun hmark => hplain c hc hmark.2
  · have hplace : src.chars[a]? = some '>' := by
      rw [← Source.head?_slice (Nat.lt_succ_self a), hmark]
      rfl
    have htext : src.text ⟨a, a + 1⟩ = ">" := by rw [Source.text, hmark]
    have hquoted : quoted := by
      rcases hidle a (Nat.le_refl _) (Nat.lt_succ_self a) '>' hplace with hwhite | hquoted
      · exact absurd hwhite (by decide)
      · exact hquoted.1
    unfold leafOf
    rw [htext]
    exact .quoteMarker hquoted

theorem gapLeaves_leaves {start place stop : Nat} {cs : List Char} (hcs : src.slice place stop = cs)
    (hle : start ≤ place) (hplain : ∀ c ∈ src.slice start place, c ≠ '>') :
    Each (IsGapLeaf src) (gapLeaves src start place cs) := by
  have hspace : Each (IsGapLeaf src) (if start < place then [leafOf src .space start place] else []) :=
    .optional (.single (.inl ⟨start, place, rfl, hplain⟩))
  induction cs generalizing start place with
  | nil => exact hspace
  | cons c cs ih =>
      have hone : src.slice place (place + 1) = [c] := Source.slice_prefix (show _ = [c] ++ cs from hcs)
      unfold gapLeaves
      split
      · rename_i hmark
        obtain rfl := beq_iff_eq.mp hmark
        have hnone : ∀ c ∈ src.slice (place + 1) (place + 1), c ≠ '>' := by
          rw [src.slice_self]
          exact fun _ hc => absurd hc List.not_mem_nil
        refine hspace.append (.cons (.inr ⟨place, rfl, hone⟩) ?_)
        exact ih (src.slice_tail hcs) (Nat.le_refl _) hnone (.optional (.single (.inl ⟨_, _, rfl, hnone⟩)))
      · rename_i hmark
        have hmore : ∀ d ∈ src.slice start (place + 1), d ≠ '>' := by
          intro d hd
          rw [← src.slice_append hle (Nat.le_succ place), hone, List.mem_append, List.mem_singleton] at hd
          rcases hd with hd | rfl
          · exact hplain d hd
          · exact fun heq => hmark (beq_iff_eq.mpr heq)
        exact ih (src.slice_tail hcs) (Nat.le_succ_of_le hle) hmore (.optional (.single (.inl ⟨_, _, rfl, hmore⟩)))

theorem gap_leaves (src : Source) (a b : Nat) : Each (IsGapLeaf src) (gap src a b) := by
  refine .optional (gapLeaves_leaves rfl (Nat.le_refl a) ?_)
  rw [src.slice_self]
  exact fun _ hc => absurd hc List.not_mem_nil

theorem gapLeaves_spaces {start place : Nat} {cs : List Char} (h : ∀ c ∈ cs, c ≠ '>') :
    ∀ n ∈ gapLeaves src start place cs, n.kind = .markup .space := by
  induction cs generalizing place with
  | nil =>
      refine Each.optional (.single ?_)
      rfl
  | cons c cs ih =>
      have hc : (c == '>') = false := beq_eq_false_iff_ne.mpr (h c List.mem_cons_self)
      unfold gapLeaves
      rw [hc, if_neg Bool.false_ne_true]
      exact ih fun d hd => h d (List.mem_cons_of_mem _ hd)

/-- A gap of white space has leaves of white space only. -/
theorem gap_spaces (h : ∀ p, a ≤ p → p < b → ∀ c, src.chars[p]? = some c → isWhitespace c = true) :
    ∀ n ∈ gap src a b, n.kind = .markup .space := by
  refine Each.optional (gapLeaves_spaces fun c hc => ?_)
  obtain ⟨p, hfrom, hto, hp⟩ := Source.mem_slice.mp hc
  rintro rfl
  exact absurd (h p hfrom hto _ hp) (by decide)

/-- There are no gaps in a run of nodes. -/
theorem fill_run_eq {nodes : List Node} {cursor stop : Nat} (h : Run src.Holds a b nodes) (hne : nodes ≠ [])
    (hle : cursor ≤ a) : fill src cursor stop nodes = gap src cursor a ++ nodes ++ gap src b stop := by
  induction nodes generalizing a cursor with
  | nil => exact absurd rfl hne
  | cons node nodes ih =>
      obtain ⟨rfl, hnode, hrest⟩ := h.of_cons
      have hmax : max cursor node.stop = node.stop := Nat.max_eq_right (Nat.le_trans hle (Node.Fits.le hnode))
      rw [fill, hmax, List.append_assoc, List.cons_append]
      cases nodes with
      | nil => rw [hrest.chain]; rfl
      | cons next nodes =>
          have hnone : gap src node.stop node.stop = [] := if_neg (Nat.lt_irrefl _)
          rw [ih hrest (List.cons_ne_nil _ _) (Nat.le_refl _), hnone, List.nil_append]

/-- Filling gaps adds leaves of gaps only. -/
theorem fill_leaves {n : Node} {nodes : List Node} {cursor stop : Nat} (h : n ∈ fill src cursor stop nodes) :
    n ∈ nodes ∨ IsGapLeaf src n := by
  induction nodes generalizing cursor with
  | nil => exact .inr (gap_leaves src cursor stop n h)
  | cons m nodes ih =>
      rcases List.mem_append.mp h with h | h
      · exact .inr (gap_leaves src cursor m.start n h)
      · rcases List.mem_cons.mp h with rfl | h
        · exact .inl List.mem_cons_self
        · exact (ih h).imp_left (List.mem_cons_of_mem m)

/-- **Gaps are formed if the nodes between them keep all that is written.** -/
theorem fill_formed {nodes : List Node} {cursor stop : Nat} (hrun : Run src.Holds a b (fill src cursor stop nodes))
    (hkeeps : Keeps src quoted [⟨a, b⟩] (nodes.map Node.span)) (hnodes : Each (Formed src quoted) nodes) :
    Each (Formed src quoted) (fill src cursor stop nodes) := by
  intro n hn
  by_cases hmem : n ∈ nodes
  · exact hnodes n hmem
  refine ((fill_leaves hn).resolve_left hmem).formed fun p hfrom hto => ?_
  have hin : LiesIn [⟨a, b⟩] p := liesIn_single.mpr
    ⟨Nat.le_trans (hrun.le_start (joinable_places src) hn) hfrom,
      Nat.lt_of_lt_of_le hto (hrun.stop_le (joinable_places src) hn)⟩
  refine (hkeeps p hin).resolve_right ?_
  rintro ⟨s, hs, hstart, hstop⟩
  obtain ⟨m, hm, rfl⟩ := List.mem_map.mp hs
  -- the leaf does not overlap the nodes
  have hne : m ≠ n := fun heq => hmem (heq ▸ hm)
  have hstart : m.start ≤ p := hstart
  have hstop : p < m.stop := hstop
  rcases hrun.apart (joinable_places src) hn (mem_fill cursor stop hm) hne with ⟨_, hbefore, _⟩ | ⟨_, hbehind, _⟩
  · omega
  · omega

/-- A branch whose gaps are filled. -/
theorem filled_run_children {kind : MarkupKind} {nodes : List Node} {start stop : Nat}
    (h : (filled src kind start stop nodes).Fits src) :
    Run src.Holds (filled src kind start stop nodes).start (filled src kind start stop nodes).stop
      (fill src start stop nodes) := by
  cases h with
  | inner chain _ _ parts => exact ⟨chain, parts⟩

/-- **A branch whose gaps are filled is formed** if its nodes are, and keep all that is written in it. -/
theorem filled_formed {kind : MarkupKind} {nodes : List Node} {start stop : Nat} (hkind : kind.isOrdinary = true)
    (hfits : (filled src kind start stop nodes).Fits src)
    (hkeeps : Keeps src quoted [(filled src kind start stop nodes).span] (nodes.map Node.span))
    (hnodes : Each (Formed src quoted) nodes) : Formed src quoted (filled src kind start stop nodes) :=
  .markup hkind (fill_formed (filled_run_children hfits) hkeeps hnodes)

/-- A branch keeps what its nodes keep. -/
theorem Keeps.filled {kind : MarkupKind} {nodes : List Node} {start stop : Nat}
    (h : Keeps src quoted outer (nodes.map Node.span)) (hfits : (filled src kind start stop nodes).Fits src) :
    Keeps src quoted outer [(Markup.filled src kind start stop nodes).span] := by
  refine h.trans (.each fun s hs => ?_)
  obtain ⟨n, hn, rfl⟩ := List.mem_map.mp hs
  have hrun := filled_run_children hfits
  have hmem : n ∈ fill src start stop nodes := mem_fill start stop hn
  exact .part (List.mem_singleton_self _) (hrun.le_start (joinable_places src) hmem)
    (hrun.stop_le (joinable_places src) hmem)

/-! ## What block rules rely on -/

/-- What is relied on while blocks are read: inline content is what its regions are read as, and the nodes of the blocks
inside a block are formed and keep what its lines hold, in a quotation or not. -/
structure BlockEnv.Forms (env : BlockEnv) : Prop where
  inline : ∃ levels, env.inline = inlineNodes env.source levels
  nested : ∀ (quoted : Prop) {lo hi : Nat} {lines : List Span}, Lines lo hi lines → hi ≤ env.source.size →
    Page env.source quoted lines → Each (Formed env.source quoted) (env.nested lines).value ∧
      Keeps env.source quoted lines ((env.nested lines).value.map Node.span)

/-- Inline content is formed, and keeps its region. -/
theorem BlockEnv.Forms.region {env : BlockEnv} (he : env.Forms) (quoted : Prop) {lo hi : Nat} {segments : List Span}
    (hregion : Region lo hi segments) (hhi : hi ≤ env.source.size) (hbreaks : Breaks env.source quoted segments)
    (mode : Mode) : Each (Formed env.source quoted) (env.inline segments mode).value ∧
      IsRegion env.source mode ((env.inline segments mode).value.map Node.tag) := by
  obtain ⟨levels, hinline⟩ := he.inline
  rw [hinline]
  exact ⟨inlineNodes_formed levels hregion hhi hbreaks mode,
    .inr (.inr ⟨levels, segments, lo, hi, hregion, hhi, rfl⟩)⟩

end ComponentMarkup.Markup
