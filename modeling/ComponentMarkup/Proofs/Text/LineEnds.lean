import ComponentMarkup.Proofs.Text.LineBreaks

/-!
# Cutting a text at its line ends

A text is cut into lines in two ways, into stretches and into texts.  Both cut at the line ends: what stands between two
lines is one of them, and each of them stands between two lines.  So nothing of a text is lost but its line ends, and
both ways give the same lines.

* `gaps` — the stretches between lines;
* `mem_gaps_cutLines` — every line end is such a gap;
* `LinesOf`, `lineSpans_linesOf` — the lines of a stretch, and that they are found;
* `lineTexts_slice` — the lines as texts are what the lines as stretches hold;
* `lines_agree` — both together.
-/

namespace ComponentMarkup.Text

variable {src : Source} {s e : Span} {lo hi start here stop : Nat} {lines : List Span} {c : Char} {cs : List Char}

/-! ## Gaps -/

/-- The stretches between lines. -/
def gaps : List Span → List Span
  | a :: b :: lines => ⟨a.stop, b.start⟩ :: gaps (b :: lines)
  | _ => []

/-- What holds between each line and the next holds of the gaps. -/
theorem forall_gaps {p : Span → Prop} (h : lines.IsChain fun a b => p ⟨a.stop, b.start⟩) : ∀ e ∈ gaps lines, p e := by
  fun_induction gaps lines with
  | case1 a b lines ih =>
      obtain ⟨hfirst, hrest⟩ := List.isChain_cons_cons.mp h
      exact List.forall_mem_cons.mpr ⟨hfirst, ih hrest⟩
  | case2 lines hlines => exact fun e he => absurd he List.not_mem_nil

/-- Each line but the first starts where the gap before it stops. -/
theorem map_start_cons (line : Span) (lines : List Span) :
    (line :: lines).map Span.start = line.start :: (gaps (line :: lines)).map Span.stop := by
  induction lines generalizing line with
  | nil => rfl
  | cons next lines ih => rw [List.map_cons, ih next, gaps, List.map_cons]

/-- Gaps between lines in order are in order. -/
theorem Lines.gaps_ordered (h : Lines lo hi lines) :
    (∀ e ∈ gaps lines, lo ≤ e.start) ∧ (gaps lines).Pairwise fun a b => a.stop ≤ b.start := by
  fun_induction gaps lines generalizing lo with
  | case1 a b lines ih =>
      obtain ⟨hlo, ha, hab, hb, hlater⟩ := h
      have hnext : Lines b.start hi (b :: lines) := ⟨Nat.le_refl _, hb, hlater⟩
      obtain ⟨hbelow, hordered⟩ := ih hnext
      have hfrom : lo ≤ a.stop := Nat.le_trans hlo ha
      exact ⟨List.forall_mem_cons.mpr ⟨hfrom, fun e he => Nat.le_trans (Nat.le_trans hfrom hab) (hbelow e he)⟩,
        List.pairwise_cons.mpr ⟨hbelow, hordered⟩⟩
  | case2 lines hlines => exact ⟨fun e he => absurd he List.not_mem_nil, .nil⟩

theorem gaps_cutLines (start here next : Nat) (cs : List Char) :
    gaps (⟨start, here⟩ :: cutLines next next cs) = ⟨here, next⟩ :: gaps (cutLines next next cs) := by
  obtain ⟨stop, lines, hlines⟩ := cutLines_cons next next cs
  rw [hlines, gaps]

/-! ## Every line end is a gap -/

/-- **A line end, seen from where it starts**: a carriage return with the line feed after it, or any other character that
ends a line. -/
theorem LineEndOf.eq_or (h : LineEndOf src s e) (hs : s.stop ≤ src.size) (hrest : src.slice e.start s.stop = c :: cs) :
    (c = '\r' ∧ cs.head? = some '\n' ∧ e.stop = e.start + 2) ∨
      (isNewline c = true ∧ (c = '\r' → cs.head? ≠ some '\n') ∧ src.slice e.start e.stop = [c] ∧
        e.stop = e.start + 1) := by
  have hlt := h.lt
  have hle := h.stop_le
  have hlength := src.length_slice (i := e.start) (Nat.le_trans hle hs)
  have htake : (c :: cs).take (e.stop - e.start) = src.slice e.start e.stop := by
    rw [← hrest, src.slice_take (by omega), Nat.add_sub_cancel' (Nat.le_of_lt hlt)]
  rcases h.isLineEnd with hpair | ⟨d, hd, hone⟩
  · have hsize : e.stop - e.start = 2 := by rw [← hlength, hpair]; rfl
    rw [hsize, hpair, List.take_succ_cons] at htake
    obtain ⟨hc, hcs⟩ := List.cons.inj htake
    refine .inl ⟨hc, ?_, by omega⟩
    rw [← List.head?_cons (a := '\n') (l := []), ← hcs, List.head?_take, if_neg Nat.one_ne_zero]
  · have hsize : e.stop - e.start = 1 := by rw [← hlength, hone]; rfl
    rw [hsize, hone, List.take_succ_cons, List.take_zero] at htake
    obtain ⟨rfl, -⟩ := List.cons.inj htake
    have hstop : e.stop = e.start + 1 := by omega
    have hahead := h.ahead
    rw [hone, hstop, src.slice_tail hrest] at hahead
    exact .inr ⟨hd, fun hc => hahead (hc ▸ rfl), hone, hstop⟩

/-- **Every line end stands between two lines.**  The line ends from the place `here` on are met one by one. -/
theorem mem_gaps_cutLines (hstop : stop ≤ src.size) (he : LineEndOf src ⟨lo, stop⟩ e) (cs : List Char)
    (h : src.slice here stop = cs) (hlo : lo ≤ here) (hfrom : here ≤ e.start) : e ∈ gaps (cutLines start here cs) := by
  fun_induction cutLines start here cs with
  | case1 start here =>
      have hlt : e.start < stop := Nat.lt_of_lt_of_le he.lt he.stop_le
      have hlength := src.length_slice (i := here) hstop
      rw [h, List.length_nil] at hlength
      omega
  | case2 start here cs ih =>
      have htail := src.slice_tail h
      rw [gaps_cutLines, List.mem_cons]
      rcases Nat.lt_trichotomy e.start (here + 1) with hfirst | hsecond | hlater
      · obtain rfl : here = e.start := by omega
        rcases he.eq_or hstop h with ⟨-, -, hend⟩ | ⟨-, halone, -, -⟩
        · exact .inl (by rw [← hend])
        · exact absurd rfl (halone rfl)
      · -- the line feed behind a carriage return is no line end of its own
        rcases he.eq_or hstop (hsecond ▸ htail) with ⟨hreturn, -, -⟩ | ⟨-, -, hone, -⟩
        · exact absurd hreturn (by decide)
        · have hgap : src.slice here (here + 1) = ['\r'] := Source.slice_prefix (show _ = ['\r'] ++ _ from h)
          refine absurd ?_ (he.behind hone)
          rw [hsecond, Source.getLast?_slice hgap (List.cons_ne_nil _ _) hlo (Nat.le_succ here), List.getLast?_singleton]
      · exact .inr (ih (src.slice_tail htail) (by omega) hlater)
  | case3 start here c cs hpair hnewline ih =>
      rw [gaps_cutLines, List.mem_cons]
      rcases Nat.eq_or_lt_of_le hfrom with rfl | hlater
      · rcases he.eq_or hstop h with ⟨hreturn, hfeed, -⟩ | ⟨-, -, -, hend⟩
        · obtain ⟨rest, rfl⟩ := List.head?_eq_some_iff.mp hfeed
          exact absurd rfl (hpair rest hreturn)
        · exact .inl (by rw [← hend])
      · exact .inr (ih (src.slice_tail h) (by omega) hlater)
  | case4 start here c cs hpair hnewline ih =>
      rcases Nat.eq_or_lt_of_le hfrom with rfl | hlater
      · rcases he.eq_or hstop h with ⟨rfl, -, -⟩ | ⟨hc, -⟩
        · exact absurd rfl hnewline
        · exact absurd hc hnewline
      · exact ih (src.slice_tail h) (by omega) hlater

/-- The lines of a stretch: they reach from its start to its end, one after the other, hold no line ends, and what stands
between them are the line ends of the stretch. -/
structure LinesOf (src : Source) (s : Span) (lines : List Span) : Prop where
  region : Region s.start s.stop lines
  clean : ∀ line ∈ lines, ∀ c ∈ src.slice line.start line.stop, isNewline c = false
  mem_gaps : ∀ e, e ∈ gaps lines ↔ LineEndOf src s e

/-- **A stretch is cut into its lines.** -/
theorem lineSpans_linesOf (hle : s.start ≤ s.stop) (hstop : s.stop ≤ src.size) : LinesOf src s (lineSpans src s) where
  region := lineSpans_region hle hstop
  clean := (lineSpans_page src False s).clean
  mem_gaps e := ⟨forall_gaps (lineSpans_lineEnds src s) e,
    fun he => mem_gaps_cutLines hstop he _ rfl (Nat.le_refl _) he.start_le⟩

/-! ## Lines as texts -/

/-- A text that starts with a line end has an empty first line. -/
theorem breakLines_newline (hnewline : isNewline c = true) (hpair : ∀ rest, c = '\r' → cs = '\n' :: rest → False) :
    breakLines (c :: cs) = ([], lineTexts cs) := by
  rw [breakLines]
  · exact if_pos hnewline
  · exact hpair

/-- Any other character at the start of a text belongs to its first line. -/
theorem breakLines_char (hnewline : ¬ isNewline c = true) :
    breakLines (c :: cs) = (c :: (breakLines cs).1, (breakLines cs).2) := by
  rw [breakLines]
  · exact if_neg hnewline
  · rintro rest rfl -
    exact hnewline rfl

/-- The stretches hold the texts; of the first line, a part may have been read already. -/
theorem cutLines_texts (cs : List Char) (h : src.slice here stop = cs) (hle : start ≤ here) :
    (cutLines start here cs).map (fun line => src.slice line.start line.stop) =
      (src.slice start here ++ (breakLines cs).1) :: (breakLines cs).2 := by
  fun_induction cutLines start here cs with
  | case1 start here =>
      rw [breakLines, List.append_nil]
      rfl
  | case2 start here cs ih =>
      rw [List.map_cons, ih (src.slice_tail (src.slice_tail h)) (Nat.le_refl _), src.slice_self, breakLines,
        List.append_nil, List.nil_append]
  | case3 start here c cs hpair hnewline ih =>
      rw [List.map_cons, ih (src.slice_tail h) (Nat.le_refl _), src.slice_self, breakLines_newline hnewline hpair,
        List.append_nil, List.nil_append]
      rfl
  | case4 start here c cs hpair hnewline ih =>
      have hone : src.slice here (here + 1) = [c] := Source.slice_prefix (show _ = [c] ++ cs from h)
      rw [ih (src.slice_tail h) (Nat.le_succ_of_le hle), breakLines_char hnewline,
        ← src.slice_append hle (Nat.le_succ here), hone, List.append_assoc, List.singleton_append]

/-- **Both ways to cut a stretch into lines agree.** -/
theorem lineTexts_slice (src : Source) (s : Span) :
    lineTexts (src.slice s.start s.stop) = (lineSpans src s).map fun line => src.slice line.start line.stop := by
  rw [lineSpans, cutLines_texts _ rfl (Nat.le_refl _), src.slice_self, List.nil_append]
  rfl

/-- **The lines of a text, and of any stretch of it.**  The lines of a text as texts are what its lines as stretches
hold.  The lines of a stretch reach from its start to its end, each behind the one before it, and hold no character that
ends a line.  Between a line and the next there is one line end, a carriage return and the line feed after it being one
if both belong to the stretch, and there is no other line end. -/
theorem lines_agree (text : String) :
    let src := Source.ofString text
    lineTexts text.toList = (lineSpans src src.whole).map (fun line => src.slice line.start line.stop) ∧
      ∀ s : Span, s.start ≤ s.stop → s.stop ≤ src.size → LinesOf src s (lineSpans src s) := by
  intro src
  have hwhole : src.slice 0 src.size = text.toList := by
    rw [Source.slice_eq]
    exact List.take_length
  refine ⟨?_, fun s hle hstop => lineSpans_linesOf hle hstop⟩
  rw [← hwhole]
  exact lineTexts_slice src src.whole

/-- A carriage return at the end of a stretch is a line end there, also if a line feed stands behind the stretch. -/
theorem lines_agree_return :
    (0 ≤ 2 ∧ 2 ≤ (Source.ofString "a\r\nb").size) ∧
      lineSpans (.ofString "a\r\nb") ⟨0, 2⟩ = [⟨0, 1⟩, ⟨2, 2⟩] ∧
      LinesOf (.ofString "a\r\nb") ⟨0, 2⟩ [⟨0, 1⟩, ⟨2, 2⟩] :=
  ⟨by decide, by decide, (lines_agree "a\r\nb").2 ⟨0, 2⟩ (by decide) (by decide)⟩

end ComponentMarkup.Text
