import ComponentMarkup.Proofs.Markup.Interruption

/-!
# Lines as they are written inside other blocks

A quotation writes a mark and a blank before each of its lines, an item of a list its marker before the first and as
many blanks before the others.  What is read inside such a block are the lines without that: a view of the text in
which the margin stands between the lines, behind their line ends.

* `Written` — lines of the text that hold given texts, with a margin before all but the first;
* `lineSpans_written` — the lines of a text that is written line by line;
* `Written.slice_eq` — the stretch from the first line to the last, margins and all;
* `Written.inside` — what is taken off where the lines start becomes part of the margin;
* `unquote_eq`, `itemLines_eq` — what quotations and items take off.
-/

namespace ComponentMarkup.Text

variable {src : Source} {margin : List Char} {line : Span} {lines : List Span} {text : List Char}
  {texts : List (List Char)}

/-- Lines of the text that hold the given texts.  Between a line and the next there are a line feed and a margin. -/
structure Written (src : Source) (margin : List Char) (lines : List Span) (texts : List (List Char)) : Prop where
  /-- What the lines hold. -/
  texts_eq : lines.map (fun l => src.slice l.start l.stop) = texts
  /-- What stands between them. -/
  breaks : lines.IsChain fun a b => a.stop ≤ b.start ∧ src.slice a.stop b.start = '\n' :: margin
  /-- Every line lies in the text. -/
  bounds : ∀ l ∈ lines, l.start ≤ l.stop ∧ l.stop ≤ src.size

/-- What stands at the start of a slice leaves that much room in it. -/
theorem Source.start_le_of_slice {i j : Nat} {xs ys : List Char} (h : src.slice i j = xs ++ ys) (hij : i ≤ j) :
    i + xs.length ≤ j := by
  have hlength := src.length_slice_le i j
  rw [h, List.length_append] at hlength
  omega

/-- **The lines of a text that is written line by line.** -/
theorem cutLines_written {here : Nat} (hclean : ∀ t ∈ text :: texts, ∀ c ∈ t, isNewline c = false)
    (hhere : here ≤ src.size) (h : src.slice here src.size = List.intercalate ['\n'] (text :: texts)) :
    Written src [] (cutLines here here (List.intercalate ['\n'] (text :: texts))) (text :: texts) := by
  obtain ⟨htext, htexts⟩ := List.forall_mem_cons.mp hclean
  induction texts generalizing here text with
  | nil =>
      rw [List.intercalate_singleton] at h ⊢
      have hwithin := Source.start_le_of_slice (show _ = text ++ [] by rw [h, List.append_nil]) hhere
      rw [cutLines_single here here htext]
      refine ⟨?_, .singleton _, ?_⟩
      · exact congrArg (fun t => [t]) (Source.slice_prefix (show _ = text ++ [] by rw [h, List.append_nil]))
      · exact List.forall_mem_singleton.mpr ⟨Nat.le_add_right _ _, hwithin⟩
  | cons next texts ih =>
      rw [List.intercalate_cons_cons, List.append_assoc, List.singleton_append] at h ⊢
      have hwithin := Source.start_le_of_slice (show _ = (text ++ ['\n']) ++ _ by rw [h, ← List.append_cons]) hhere
      rw [List.length_append, List.length_singleton, ← Nat.add_assoc] at hwithin
      have hone : src.slice here (here + text.length) = text := Source.slice_prefix h
      have htail : src.slice (here + text.length) src.size = '\n' :: List.intercalate ['\n'] (next :: texts) := by
        rw [← src.slice_drop, h, List.drop_left]
      have hfeed : src.slice (here + text.length) (here + text.length + 1) = ['\n'] :=
        Source.slice_prefix (show _ = ['\n'] ++ _ from htail)
      obtain ⟨hnext, hlater⟩ := List.forall_mem_cons.mp htexts
      have hrest := ih htexts hwithin (src.slice_tail htail) hnext hlater
      obtain ⟨stop, later, hlines⟩ := cutLines_cons (here + text.length + 1) (here + text.length + 1)
        (List.intercalate ['\n'] (next :: texts))
      rw [cutLines_feed here here _ htext]
      refine ⟨?_, ?_, ?_⟩
      · rw [List.map_cons, hone, hrest.texts_eq]
      · have hbreaks := hrest.breaks
        rw [hlines] at hbreaks ⊢
        exact List.isChain_cons_cons.mpr ⟨⟨Nat.le_succ _, hfeed⟩, hbreaks⟩
      · exact List.forall_mem_cons.mpr ⟨⟨Nat.le_add_right _ _, Nat.le_of_succ_le hwithin⟩, hrest.bounds⟩

/-- The lines of a whole text that is written line by line. -/
theorem lineSpans_written {whole : String} (hclean : ∀ t ∈ text :: texts, ∀ c ∈ t, isNewline c = false)
    (hwhole : whole.toList = List.intercalate ['\n'] (text :: texts)) :
    Written (.ofString whole) [] (lineSpans (.ofString whole) (Source.ofString whole).whole) (text :: texts) := by
  have hslice : (Source.ofString whole).slice 0 (Source.ofString whole).size =
      List.intercalate ['\n'] (text :: texts) := by
    rw [Source.slice_eq, ← hwhole]
    exact List.take_length
  have h := cutLines_written hclean (Nat.zero_le _) hslice
  rw [← hslice] at h
  exact h

namespace Written

theorem head (h : Written src margin (line :: lines) (text :: texts)) : src.slice line.start line.stop = text :=
  (List.cons.inj h.texts_eq).1

theorem tail (h : Written src margin (line :: lines) (text :: texts)) : Written src margin lines texts :=
  ⟨(List.cons.inj h.texts_eq).2, h.breaks.tail, fun l hl => h.bounds l (List.mem_cons_of_mem line hl)⟩

/-- A line holds one of the texts. -/
theorem mem (h : Written src margin lines texts) (hline : line ∈ lines) :
    src.slice line.start line.stop ∈ texts := by
  rw [← h.texts_eq]
  exact List.mem_map_of_mem hline

/-- A list of lines for every list of texts. -/
theorem exists_cons (h : Written src margin lines (text :: texts)) : ∃ line later, lines = line :: later := by
  cases lines with
  | nil => cases h.texts_eq
  | cons line later => exact ⟨line, later, rfl⟩

/-- **From the first line to the last there stand the texts with the margins between them.** -/
theorem slice_eq {first last : Span} (h : Written src margin lines texts) (hfirst : lines.head? = some first)
    (hlast : lines.getLast? = some last) :
    first.start ≤ last.stop ∧ src.slice first.start last.stop = List.intercalate ('\n' :: margin) texts := by
  induction lines generalizing texts first with
  | nil => cases hfirst
  | cons line lines ih =>
      obtain rfl := Option.some.inj hfirst
      obtain ⟨hline, hsize⟩ := h.bounds line List.mem_cons_self
      cases lines with
      | nil =>
          obtain rfl := Option.some.inj hlast
          rw [← h.texts_eq, List.map_singleton, List.intercalate_singleton]
          exact ⟨hline, rfl⟩
      | cons next lines =>
          obtain ⟨hbreak, hbreaks⟩ := List.isChain_cons_cons.mp h.breaks
          have hrest : Written src margin (next :: lines) _ :=
            ⟨rfl, hbreaks, fun l hl => h.bounds l (List.mem_cons_of_mem line hl)⟩
          rw [List.getLast?_cons_cons] at hlast
          obtain ⟨hle, hslice⟩ := ih hrest rfl hlast
          have hfrom : line.start ≤ next.start := Nat.le_trans hline hbreak.1
          refine ⟨Nat.le_trans hfrom hle, ?_⟩
          rw [List.map_cons] at hslice
          rw [← h.texts_eq, List.map_cons, List.map_cons, List.intercalate_cons_cons, ← hslice, ← hbreak.2,
            src.slice_append hline hbreak.1, src.slice_append hfrom hle]

/-- **What is taken off where the lines start becomes part of the margin.** -/
theorem inside {opening taken : List Char}
    (h : Written src margin (line :: lines) ((opening ++ text) :: texts.map (taken ++ ·))) :
    Written src (margin ++ taken) (⟨line.start + opening.length, line.stop⟩ ::
      lines.map fun l => ⟨l.start + taken.length, l.stop⟩) (text :: texts) := by
  have hlater : lines.map (fun l => src.slice l.start l.stop) = texts.map (taken ++ ·) := h.tail.texts_eq
  have htaken : ∀ l ∈ lines, ∃ rest, src.slice l.start l.stop = taken ++ rest := by
    intro l hl
    obtain ⟨rest, -, hrest⟩ := List.mem_map.mp (h.tail.mem hl)
    exact ⟨rest, hrest.symm⟩
  refine ⟨?_, ?_, ?_⟩
  · have hfirst : src.slice (line.start + opening.length) line.stop = text := by
      rw [← src.slice_drop, h.head, List.drop_left]
    have hrest := congrArg (List.map (List.drop taken.length)) hlater
    simp only [List.map_map, Function.comp_def, List.drop_left, src.slice_drop, List.map_id'] at hrest
    rw [List.map_cons, hfirst, List.map_map]
    exact congrArg (text :: ·) hrest
  · -- a margin ends where what is taken off ends
    have hbreaks := h.breaks
    generalize hfrom : line.start + opening.length = from'
    clear h hfrom hlater
    induction lines generalizing line from' with
    | nil => exact .singleton _
    | cons next lines ih =>
        obtain ⟨⟨hle, hslice⟩, hrest⟩ := List.isChain_cons_cons.mp hbreaks
        obtain ⟨rest, hnext⟩ := htaken next List.mem_cons_self
        refine List.isChain_cons_cons.mpr ⟨⟨Nat.le_trans hle (Nat.le_add_right _ _), ?_⟩, ?_⟩
        · rw [← src.slice_append hle (Nat.le_add_right _ _), hslice, Source.slice_prefix hnext]
          rfl
        · exact ih (fun l hl => htaken l (List.mem_cons_of_mem next hl)) hrest _
  · refine List.forall_mem_cons.mpr ⟨?_, fun l hl => ?_⟩
    · obtain ⟨hle, hsize⟩ := h.bounds line List.mem_cons_self
      exact ⟨Source.start_le_of_slice h.head hle, hsize⟩
    · obtain ⟨old, hold, rfl⟩ := List.mem_map.mp hl
      obtain ⟨hle, hsize⟩ := h.bounds old (List.mem_cons_of_mem line hold)
      obtain ⟨rest, hrest⟩ := htaken old hold
      exact ⟨Source.start_le_of_slice hrest hle, hsize⟩

end Written

end ComponentMarkup.Text

namespace ComponentMarkup.Markup

open ComponentMarkup.Text ComponentMarkup.Tree

variable {src : Source} {line : Span} {text : List Char}

/-! ## What quotations and items take off -/

/-- A line that starts without a blank is not indented. -/
theorem contentStart_eq {c : Char} {cs : List Char} (h : src.slice line.start line.stop = c :: cs)
    (hc : isBlank c = false) : contentStart src line = line.start := by
  simp [contentStart, indentOf, lineChars, h, runLength, hc]

/-- A quoted line without its mark and one blank. -/
theorem unquote_eq (h : src.slice line.start line.stop = ['>', ' '] ++ text) :
    unquote src line = ⟨line.start + 2, line.stop⟩ := by
  have hrest : src.slice (line.start + 1) line.stop = ' ' :: text := src.slice_tail h
  rw [unquote, contentStart_eq h rfl, hrest, if_pos (by rfl)]

/-- Blanks that indent a line. -/
theorem le_indentOf {n : Nat} (h : src.slice line.start line.stop = List.replicate n ' ' ++ text) :
    n ≤ indentOf src line := by
  rw [indentOf, lineChars, h, runLength]
  clear h
  induction n with
  | zero => exact Nat.zero_le _
  | succ n ih => simpa [List.replicate_succ, isBlank] using ih

theorem strip_eq {n : Nat} (h : src.slice line.start line.stop = List.replicate n ' ' ++ text) :
    strip src n line = ⟨line.start + n, line.stop⟩ := by
  rw [strip, Nat.min_eq_right (le_indentOf h)]

/-- Lines that are all indented to the column of an item belong to it, if the last of them is not blank. -/
theorem itemLines_eq {column : Nat} {lines : List Span} (hindent : ∀ l ∈ lines, column ≤ indentOf src l)
    (hlast : ∀ l ∈ lines.getLast?, isBlankLine src l = false) (goesOn : Bool) :
    itemLines src column goesOn lines = (lines.map (strip src column), []) := by
  induction lines generalizing goesOn with
  | nil => rfl
  | cons line lines ih =>
      have hrest : ∀ goesOn, itemLines src column goesOn lines = (lines.map (strip src column), []) := by
        refine ih (fun l hl => hindent l (List.mem_cons_of_mem line hl)) fun l hl => hlast l ?_
        cases lines with
        | nil => cases hl
        | cons next lines => rwa [List.getLast?_cons_cons]
      unfold itemLines
      split
      · rename_i hblank
        -- a blank line has others behind it
        rw [hrest]
        cases lines with
        | nil => rw [hlast line rfl] at hblank; cases hblank
        | cons next lines => rfl
      · rw [if_pos (hindent line List.mem_cons_self), hrest]
        rfl

end ComponentMarkup.Markup
