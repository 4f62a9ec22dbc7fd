import ComponentMarkup.Proofs.Program.Literals
import ComponentMarkup.Proofs.Program.Mappings
import ComponentMarkup.Proofs.Text.LineEnds

/-!
# Positions are faithful

The byte offsets that lie between two characters of a text are those that have a position.  A position counts: its line
is the number of line ends up to the offset, its columns are the numbers of characters and of UTF-16 units since the last
of them.  What is counted can only grow with the offset, and on one line the columns do grow.  So diagnostics and the
steps of a source map are in the order of the text.

* `endsUpTo` — the line ends up to a place;
* `Position.Counts`, `position?_counts` — what a position says of its place;
* `Position.Counts.lt` — later places have later positions;
* `positions_faithful` — all of it for byte offsets.
-/

namespace ComponentMarkup.Text

open ComponentMarkup.Program

variable {src : Source} {text : String} {p q : Position} {offset i j k : Nat}

/-! ## Line ends up to a place -/

/-- The line ends of a text that stop at a place or before it. -/
def endsUpTo (src : Source) (place : Nat) : List Span :=
  (gaps (lineSpans src src.whole)).filter (·.stop ≤ place)

/-- The line starts up to a place: the beginning of the text, and where these line ends stop. -/
theorem starts_filter (src : Source) (place : Nat) :
    ((lineSpans src src.whole).map Span.start).filter (· ≤ place) = 0 :: (endsUpTo src place).map Span.stop := by
  have hregion : Region 0 src.size (lineSpans src src.whole) := lineSpans_region (Nat.zero_le _) (Nat.le_refl _)
  obtain ⟨first, later, hlines, hstart, -⟩ := hregion
  rw [endsUpTo, hlines, map_start_cons, hstart, List.filter_cons, if_pos (decide_eq_true (Nat.zero_le place)),
    List.filter_map]
  rfl

/-- The last of these line starts. -/
theorem getLast?_starts (ends : List Span) : (0 :: ends.map Span.stop).getLast? = some (lastStop 0 ends) := by
  rw [List.getLast?_cons, List.getLast?_map]
  rfl

theorem lastStop_endsUpTo_le (src : Source) (place : Nat) : lastStop 0 (endsUpTo src place) ≤ place := by
  have hmem := List.mem_of_getLast? (getLast?_starts (endsUpTo src place))
  rw [← starts_filter, List.mem_filter] at hmem
  exact of_decide_eq_true hmem.2

/-- A line end up to a place is one up to a later place. -/
theorem endsUpTo_sublist (src : Source) (h : i ≤ j) : (endsUpTo src i).Sublist (endsUpTo src j) :=
  List.monotone_filter_right _ fun _ he => decide_eq_true (Nat.le_trans (of_decide_eq_true he) h)

/-! ## UTF-16 units -/

/-- The units of a text are counted character by character. -/
theorem length_utf16 (cs : List Char) : (utf16 cs).length = cs.foldr (fun c n => units16 c + n) 0 := by
  induction cs with
  | nil => rfl
  | cons c cs ih =>
      have hone : (pointUnits c.toNat).length = units16 c := by
        unfold pointUnits units16
        split <;> rfl
      rw [List.foldr_cons, ← ih, ← hone]
      exact List.length_append

/-- Every character has a unit. -/
theorem length_le_utf16 (cs : List Char) : cs.length ≤ (utf16 cs).length := by
  rw [length_utf16]
  induction cs with
  | nil => exact Nat.le_refl 0
  | cons c cs ih =>
      have hone : 1 ≤ units16 c := by
        unfold units16
        split <;> decide
      rw [List.length_cons, List.foldr_cons]
      omega

/-- A stretch that reaches further has more units. -/
theorem length_utf16_lt (hij : i ≤ j) (hjk : j < k) (hk : k ≤ src.size) :
    (utf16 (src.slice i j)).length < (utf16 (src.slice i k)).length := by
  have hmore := length_le_utf16 (src.slice j k)
  have happend : utf16 (src.slice i k) = utf16 (src.slice i j) ++ utf16 (src.slice j k) := by
    rw [← src.slice_append hij (Nat.le_of_lt hjk)]
    exact List.flatMap_append
  rw [src.length_slice hk] at hmore
  rw [happend, List.length_append]
  omega

/-! ## What positions count -/

/-- A position of a place in a text counts the line ends that stop at the place or before it, and what stands between the
last of them and the place. -/
structure Position.Counts (p : Position) (src : Source) (place : Nat) (ends : List Span) : Prop where
  ordered : ends.Pairwise fun a b => a.stop ≤ b.start
  mem_ends : ∀ e, e ∈ ends ↔ LineEndOf src src.whole e ∧ e.stop ≤ place
  line : p.line = ends.length
  column : p.column = (src.slice (lastStop 0 ends) place).length
  column16 : p.column16 = (utf16 (src.slice (lastStop 0 ends) place)).length

/-- **The end of a part of a text has a position**, which counts the line ends up to there. -/
theorem position?_counts (before after : String) :
    let src := Source.ofString (before ++ after)
    ∃ p, (LineIndex.ofSource src).position? before.utf8ByteSize = some p ∧
      p.Counts src before.length (endsUpTo src before.length) := by
  intro src
  have hsize : before.length ≤ src.size := by
    rw [Source.size_ofString, String.length_append]
    exact Nat.le_add_right _ _
  have hlines : LinesOf src src.whole (lineSpans src src.whole) := lineSpans_linesOf (Nat.zero_le _) (Nat.le_refl _)
  have hsorted : ((lineSpans src src.whole).map Span.start).Pairwise (· < ·) := by
    rw [show (lineSpans src src.whole).map Span.start = _ from
      List.toArray_inj (LineIndex.ofSource_starts (before ++ after))]
    exact lineStarts_sorted _
  have hlast : (((lineSpans src src.whole).map Span.start).filter (· ≤ before.length)).getLast? =
      some (lastStop 0 (endsUpTo src before.length)) := by
    rw [starts_filter]
    exact getLast?_starts _
  have hplace : placeAt? src.byteOffsets before.utf8ByteSize = some before.length := placeAt_prefix before after
  refine ⟨_, LineIndex.position?_of_place hplace rfl hsorted hlast, ?_⟩
  exact
    { ordered := hlines.region.lines.gaps_ordered.2.filter _
      mem_ends := fun e => by rw [endsUpTo, List.mem_filter, hlines.mem_gaps e, decide_eq_true_iff]
      line := by
        show _ - 1 = _
        rw [starts_filter, List.length_cons, List.length_map, Nat.add_sub_cancel]
      column := (src.length_slice hsize).symm
      column16 := (length_utf16 _).symm }

/-- **Later places have later positions.**  Either a line end lies between the places, or they are on one line. -/
theorem Position.Counts.lt (hp : p.Counts src i (endsUpTo src i)) (hq : q.Counts src j (endsUpTo src j)) (hij : i < j)
    (hj : j ≤ src.size) :
    Prod.Lex (· < ·) (· < ·) (p.line, p.column) (q.line, q.column) ∧
      Prod.Lex (· < ·) (· < ·) (p.line, p.column16) (q.line, q.column16) := by
  have hsub := endsUpTo_sublist src (Nat.le_of_lt hij)
  have hstart := lastStop_endsUpTo_le src i
  rcases Nat.lt_or_eq_of_le hsub.length_le with hless | hsame
  · have hline : p.line < q.line := by
      rw [hp.line, hq.line]
      exact hless
    exact ⟨.left _ _ hline, .left _ _ hline⟩
  · have hends := hsub.eq_of_length hsame
    have hline : p.line = q.line := by
      rw [hp.line, hq.line]
      exact hsame
    have hcolumn : p.column < q.column := by
      rw [hp.column, hq.column, ← hends, src.length_slice (by omega), src.length_slice hj]
      omega
    have hcolumn16 : p.column16 < q.column16 := by
      rw [hp.column16, hq.column16, ← hends]
      exact length_utf16_lt hstart hij hj
    rw [hline]
    exact ⟨.right _ hcolumn, .right _ hcolumn16⟩

/-! ## Byte offsets -/

/-- A byte offset at which a place is found lies between two characters. -/
theorem isBoundary_of_placeAt? {place : Nat} (h : placeAt? (Source.ofString text).byteOffsets offset = some place) :
    IsBoundary text offset := by
  have hget : (Source.ofString text).byteOffsets[place]? = some offset := by
    unfold placeAt? at h
    dsimp only at h
    split at h
    · rename_i hfound
      exact Option.some.inj h ▸ hfound
    · exact absurd h (Option.some_ne_none _).symm
  rw [Source.byteOffsets, List.getElem?_toArray] at hget
  have hplace : place < (Source.offsetsFrom 0 text.toList).length := (List.getElem?_eq_some_iff.mp hget).1
  rw [Source.length_offsetsFrom] at hplace
  have hbytes := Source.getElem?_offsetsFrom 0 text.toList (Nat.le_of_lt_succ hplace)
  rw [Nat.zero_add] at hbytes
  refine ⟨String.ofList (text.toList.take place), String.ofList (text.toList.drop place), ?_,
    Option.some.inj (hget.symm.trans hbytes)⟩
  rw [← String.ofList_append, List.take_append_drop, String.ofList_toList]

/-- Of two beginnings of a text the one with fewer bytes has fewer characters. -/
theorem length_lt_of_utf8ByteSize_lt {a b c d : String} (h : a ++ b = c ++ d) (hsize : a.utf8ByteSize < c.utf8ByteSize) :
    a.length < c.length := by
  have htake : ∀ {x y : String}, a ++ b = x ++ y →
      x.length ≤ (a ++ b).toList.length ∧ String.ofList ((a ++ b).toList.take x.length) = x := by
    intro x y hxy
    rw [hxy, String.toList_append, ← String.length_toList, List.take_left, String.ofList_toList, List.length_append]
    exact ⟨Nat.le_add_right _ _, rfl⟩
  obtain ⟨ha, hatake⟩ := htake rfl
  obtain ⟨-, hctake⟩ := htake h
  rcases Nat.lt_trichotomy a.length c.length with hlt | heq | hgt
  · exact hlt
  · rw [← hatake, ← hctake, heq] at hsize
    exact absurd hsize (Nat.lt_irrefl _)
  · have hmore := utf8ByteSize_take_lt hgt ha
    rw [hatake, hctake] at hmore
    omega

/-- **Positions are faithful.**  A byte offset has a position if and only if it lies between two characters of the text
or at an end of it.  The line of a position is the number of line ends that stop at the offset or before it, its columns
count the characters and the UTF-16 units from where the last of them stops.  Of two offsets the earlier one has the
earlier position, in characters as in units. -/
theorem positions_faithful (text : String) :
    let src := Source.ofString text
    let index := LineIndex.ofSource src
    (∀ offset, (index.position? offset).isSome = true ↔ IsBoundary text offset) ∧
      (∀ before after, text = before ++ after → ∃ p ends, index.position? before.utf8ByteSize = some p ∧
        p.Counts src before.length ends) ∧
      ∀ a b, IsBoundary text a → IsBoundary text b → a < b → ∃ p q, index.position? a = some p ∧
        index.position? b = some q ∧ Prod.Lex (· < ·) (· < ·) (p.line, p.column) (q.line, q.column) ∧
        Prod.Lex (· < ·) (· < ·) (p.line, p.column16) (q.line, q.column16) := by
  intro src index
  refine ⟨fun offset => ⟨fun hsome => ?_, IsBoundary.position?⟩, ?_, ?_⟩
  · obtain ⟨p, hp⟩ := Option.isSome_iff_exists.mp hsome
    simp only [index, LineIndex.position?, Option.bind_eq_bind, Option.bind_eq_some_iff] at hp
    obtain ⟨place, hplace, -⟩ := hp
    exact isBoundary_of_placeAt? hplace
  · rintro before after rfl
    obtain ⟨p, hp, hcounts⟩ := position?_counts before after
    exact ⟨p, _, hp, hcounts⟩
  · rintro a b ⟨first, rest, htext, rfl⟩ ⟨second, rest', htext', rfl⟩ hlt
    have hplaces : first.length < second.length := length_lt_of_utf8ByteSize_lt (htext.symm.trans htext') hlt
    obtain ⟨p, hp, hpcounts⟩ := position?_counts first rest
    obtain ⟨q, hq, hqcounts⟩ := position?_counts second rest'
    rw [← htext] at hp hpcounts
    rw [← htext'] at hq hqcounts
    refine ⟨p, q, hp, hq, hpcounts.lt hqcounts hplaces ?_⟩
    rw [Source.size_ofString, htext', String.length_append]
    exact Nat.le_add_right _ _

/-- An offset between a carriage return and its line feed is on the line before. -/
theorem positions_faithful_return :
    let index := LineIndex.ofSource (.ofString "f💛\r\ng")
    (IsBoundary "f💛\r\ng" 6 ∧ IsBoundary "f💛\r\ng" 7 ∧ 6 < 7) ∧ index.position? 6 = some ⟨0, 3, 4⟩ ∧
      index.position? 7 = some ⟨1, 0, 0⟩ ∧ Prod.Lex (· < ·) (· < ·) (0, 3) (1, 0) ∧
      Prod.Lex (· < ·) (· < ·) (0, 4) (1, 0) := by
  have hfirst : IsBoundary "f💛\r\ng" 6 := ⟨"f💛\r", "\ng", by decide, by decide⟩
  have hsecond : IsBoundary "f💛\r\ng" 7 := ⟨"f💛\r\n", "g", by decide, by decide⟩
  have hp : (LineIndex.ofSource (.ofString "f💛\r\ng")).position? 6 = some ⟨0, 3, 4⟩ := by decide
  have hq : (LineIndex.ofSource (.ofString "f💛\r\ng")).position? 7 = some ⟨1, 0, 0⟩ := by decide
  obtain ⟨p, q, hp', hq', hlex⟩ := (positions_faithful "f💛\r\ng").2.2 6 7 hfirst hsecond (by decide)
  obtain rfl := Option.some.inj (hp.symm.trans hp')
  obtain rfl := Option.some.inj (hq.symm.trans hq')
  exact ⟨⟨hfirst, hsecond, by decide⟩, hp, hq, hlex⟩

end ComponentMarkup.Text
