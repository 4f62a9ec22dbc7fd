import ComponentMarkup.Proofs.Text.Lines
import Mathlib.Data.List.Range

/-!
# Lines and columns

A character ends a line if it is a line end, unless it is a carriage return with a line feed behind it: then the
line feed ends the line.  The line of a place is the number of line ends before it, its column the number of
characters since the last of them.  A line index finds both by halving its table of line starts.

* `cutLines_starts` — the lines of a text start at its beginning and behind each of its line ends;
* `countUpTo_filter` — counting in an increasing table splits it at a number;
* `position?_of_place` — the position of a place is told by the line starts up to it;
* `position?_prefix` — the position of the end of a part of the text is its line and its column.
-/

namespace ComponentMarkup.Text

/-- Whether the character at a place ends a line. -/
def endsLine (cs : List Char) (i : Nat) : Bool :=
  match cs[i]? with
  | some c => isNewline c && !(c == '\r' && cs[i + 1]? == some '\n')
  | none => false

/-- How many line ends there are before a place. -/
def lineAt (cs : List Char) (place : Nat) : Nat :=
  (List.range place).countP (endsLine cs)

/-- How many characters there are between the last line end before a place and the place. -/
def columnAt (cs : List Char) (place : Nat) : Nat :=
  ((List.range place).reverse.takeWhile fun i => !endsLine cs i).length

example : lineAt "a\r\nbc".toList 4 = 1 ∧ columnAt "a\r\nbc".toList 4 = 1 := by decide

/-! ## Line ends -/

@[simp] theorem endsLine_succ (c : Char) (cs : List Char) (i : Nat) : endsLine (c :: cs) (i + 1) = endsLine cs i := by
  simp [endsLine]

theorem endsLine_zero (c : Char) (cs : List Char) :
    endsLine (c :: cs) 0 = (isNewline c && !(c == '\r' && cs.head? == some '\n')) := by
  simp [endsLine, List.head?_eq_getElem?]

/-- The places of the line ends of a text. -/
def lineEnds (cs : List Char) : List Nat :=
  (List.range cs.length).filter (endsLine cs)

theorem lineEnds_cons (c : Char) (cs : List Char) :
    lineEnds (c :: cs) = if endsLine (c :: cs) 0 then 0 :: (lineEnds cs).map Nat.succ else (lineEnds cs).map Nat.succ := by
  have hcomp : endsLine (c :: cs) ∘ Nat.succ = endsLine cs := funext fun i => endsLine_succ c cs i
  rw [lineEnds, List.length_cons, List.range_succ_eq_map, List.filter_cons, List.filter_map, hcomp, lineEnds]

/-- **Lines start at the beginning of a text and behind each line end.** -/
theorem cutLines_starts (start here : Nat) (cs : List Char) :
    (cutLines start here cs).map Span.start = start :: (lineEnds cs).map (here + 1 + ·) := by
  fun_induction cutLines start here cs with
  | case1 start here => rfl
  | case2 start here cs ih =>
      have hreturn : endsLine ('\r' :: '\n' :: cs) 0 = false := by rw [endsLine_zero]; rfl
      have hfeed : endsLine ('\n' :: cs) 0 = true := by rw [endsLine_zero]; rfl
      rw [List.map_cons, ih, lineEnds_cons, hreturn, lineEnds_cons, hfeed]
      simp only [Bool.false_eq_true, if_false, if_true, List.map_cons, List.map_map]
      refine congrArg (start :: (here + 2) :: ·) (List.map_congr_left fun i _ => ?_)
      simp only [Function.comp, Nat.succ_eq_add_one]
      omega
  | case3 start here c cs hpair hnewline ih =>
      have hends : endsLine (c :: cs) 0 = true := by
        have halone : (c == '\r' && cs.head? == some '\n') = false := by
          by_contra hboth
          simp only [Bool.not_eq_false, Bool.and_eq_true, beq_iff_eq] at hboth
          obtain ⟨rfl, hfeed⟩ := hboth
          obtain ⟨rest, rfl⟩ := List.head?_eq_some_iff.mp hfeed
          exact hpair rest rfl rfl
        rw [endsLine_zero, hnewline, halone]
        rfl
      rw [List.map_cons, ih, lineEnds_cons, hends]
      simp only [if_true, List.map_cons, List.map_map]
      refine congrArg (start :: (here + 1) :: ·) (List.map_congr_left fun i _ => ?_)
      simp only [Function.comp, Nat.succ_eq_add_one]
      omega
  | case4 start here c cs hpair hnewline ih =>
      have hends : endsLine (c :: cs) 0 = false := by
        rw [endsLine_zero, Bool.eq_false_iff.mpr hnewline, Bool.false_and]
      rw [ih, lineEnds_cons, hends]
      simp only [Bool.false_eq_true, if_false, List.map_map]
      refine congrArg (start :: ·) (List.map_congr_left fun i _ => ?_)
      simp only [Function.comp, Nat.succ_eq_add_one]
      omega

/-! ## Counting in the table of line starts -/

/-- **Counting in an increasing table splits it**: the entries that are counted are those at most the number. -/
theorem countUpTo_filter {points : List Nat} (hsorted : points.Pairwise (· < ·)) (n : Nat) :
    countUpTo points.toArray n ≤ points.length ∧
      points.filter (· ≤ n) = points.take (countUpTo points.toArray n) := by
  have hget : ∀ i, i < points.length → points.toArray.getD i 0 = points[i]?.getD 0 := by
    intro i _
    rw [Array.getD_eq_getD_getElem?, List.getElem?_toArray]
  have hmono : ∀ i j, i ≤ j → j < points.toArray.size → points.toArray.getD i 0 ≤ points.toArray.getD j 0 := by
    intro i j hij hj
    have hj' : j < points.length := hj
    rw [hget i (by omega), hget j hj', List.getElem?_eq_getElem (by omega : i < points.length),
      List.getElem?_eq_getElem hj']
    rcases Nat.lt_or_eq_of_le hij with hlt | rfl
    · exact Nat.le_of_lt (List.pairwise_iff_getElem.mp hsorted i j (by omega) hj' hlt)
    · exact Nat.le_refl _
  obtain ⟨hsize, hbelow, habove⟩ := halve_border (n := n) hmono points.toArray.size 0 points.toArray.size
    (Nat.zero_le _) (Nat.le_refl _) (by omega) (by omega) (by omega)
  change countUpTo points.toArray n ≤ points.length at hsize
  change ∀ i, i < countUpTo points.toArray n → _ at hbelow
  change ∀ i, countUpTo points.toArray n ≤ i → i < points.length → _ at habove
  -- the entries before the border are kept, those from it on are not
  have hkept : ∀ a ∈ points.take (countUpTo points.toArray n), decide (a ≤ n) = true := by
    intro a ha
    obtain ⟨i, hi, rfl⟩ := List.mem_iff_getElem.mp ha
    have hlt : i < countUpTo points.toArray n := by
      rw [List.length_take] at hi
      omega
    have hle := hbelow i hlt
    rw [hget i (by omega), List.getElem?_eq_getElem (by omega : i < points.length)] at hle
    rw [List.getElem_take]
    exact decide_eq_true hle
  have hdropped : ∀ a ∈ points.drop (countUpTo points.toArray n), ¬ decide (a ≤ n) = true := by
    intro a ha
    obtain ⟨i, hi, rfl⟩ := List.mem_iff_getElem.mp ha
    have hlt : countUpTo points.toArray n + i < points.length := by
      rw [List.length_drop] at hi
      omega
    have hgt := habove _ (Nat.le_add_right _ i) hlt
    rw [hget _ hlt, List.getElem?_eq_getElem hlt] at hgt
    rw [List.getElem_drop, decide_eq_true_iff]
    exact Nat.not_le_of_lt hgt
  refine ⟨hsize, ?_⟩
  calc points.filter (· ≤ n)
      = (points.take (countUpTo points.toArray n) ++ points.drop (countUpTo points.toArray n)).filter (· ≤ n) := by
        rw [List.take_append_drop]
    _ = points.take (countUpTo points.toArray n) := by
        rw [List.filter_append, List.filter_eq_self.mpr hkept, List.filter_eq_nil_iff.mpr hdropped, List.append_nil]

/-- The further one counts in an increasing table, the more is counted. -/
theorem countUpTo_mono {points : List Nat} (hsorted : points.Pairwise (· < ·)) {m n : Nat} (h : m ≤ n) :
    countUpTo points.toArray m ≤ countUpTo points.toArray n := by
  have hcount : ∀ k, countUpTo points.toArray k = points.countP (· ≤ k) := by
    intro k
    obtain ⟨hle, hfilter⟩ := countUpTo_filter hsorted k
    rw [List.countP_eq_length_filter, hfilter, List.length_take, Nat.min_eq_left hle]
  rw [hcount m, hcount n]
  exact List.countP_mono_left fun i _ hi => decide_eq_true (Nat.le_trans (of_decide_eq_true hi) h)

/-- The places where lines start: the beginning of a text, and behind each line end. -/
def lineStarts (cs : List Char) : List Nat :=
  0 :: (lineEnds cs).map (1 + ·)

theorem lineStarts_sorted (cs : List Char) : (lineStarts cs).Pairwise (· < ·) := by
  refine List.pairwise_cons.mpr ⟨fun a ha => ?_, ?_⟩
  · obtain ⟨i, -, rfl⟩ := List.mem_map.mp ha
    omega
  · exact (List.pairwise_lt_range.filter _).map _ fun a b hlt => Nat.add_lt_add_left hlt 1

/-- The line starts up to a place lie behind the line ends before it. -/
theorem lineStarts_filter {cs : List Char} {place : Nat} (h : place ≤ cs.length) :
    (lineStarts cs).filter (· ≤ place) = 0 :: ((List.range place).filter (endsLine cs)).map (1 + ·) := by
  have hrange : (List.range cs.length).filter (fun i => decide (1 + i ≤ place)) = List.range place := by
    obtain ⟨rest, hrest⟩ := Nat.exists_eq_add_of_le h
    rw [hrest, List.range_add, List.filter_append, List.filter_eq_self.mpr, List.filter_eq_nil_iff.mpr,
      List.append_nil]
    · intro a ha
      obtain ⟨i, -, rfl⟩ := List.mem_map.mp ha
      simp only [decide_eq_true_eq]
      omega
    · intro a ha
      have hlt := List.mem_range.mp ha
      exact decide_eq_true (by omega)
  have hcomp : ((fun a => decide (a ≤ place)) ∘ fun i => 1 + i) = fun i => decide (1 + i ≤ place) := rfl
  rw [lineStarts, List.filter_cons, if_pos (decide_eq_true (Nat.zero_le place)), List.filter_map, hcomp, lineEnds,
    List.filter_comm, hrange]

/-- The last line start up to a place lies as many characters before it as its column says. -/
theorem lastStart (cs : List Char) (place : Nat) :
    ∃ start, (0 :: ((List.range place).filter (endsLine cs)).map (1 + ·)).getLast? = some start ∧
      start + columnAt cs place = place := by
  induction place with
  | zero => exact ⟨0, rfl, rfl⟩
  | succ place ih =>
      cases hends : endsLine cs place with
      | true =>
          refine ⟨1 + place, ?_, ?_⟩
          · rw [List.range_succ, List.filter_append, List.filter_singleton, hends, cond_true, List.map_append,
              List.map_singleton, ← List.cons_append, List.getLast?_concat]
          · have hnone : columnAt cs (place + 1) = 0 := by simp [columnAt, List.range_succ, hends]
            omega
      | false =>
          obtain ⟨start, hstart, hcolumn⟩ := ih
          refine ⟨start, ?_, ?_⟩
          · rw [List.range_succ, List.filter_append, List.filter_singleton, hends, cond_false, List.append_nil]
            exact hstart
          · have hnext : columnAt cs (place + 1) = columnAt cs place + 1 := by
              simp [columnAt, List.range_succ, hends]
            omega

/-! ## Positions -/

/-- The line starts of an index. -/
theorem LineIndex.ofSource_starts (text : String) :
    (LineIndex.ofSource (.ofString text)).starts = (lineStarts text.toList).toArray := by
  have hslice : (Source.ofString text).slice 0 (Source.ofString text).size = text.toList := by
    rw [Source.slice_eq]
    exact List.take_length
  have hcut := cutLines_starts 0 0 ((Source.ofString text).slice 0 (Source.ofString text).size)
  rw [hslice, Nat.zero_add] at hcut
  refine congrArg List.toArray (Eq.trans ?_ hcut)
  rw [← hslice]
  rfl

/-- The entries of the ruler increase. -/
theorem Source.offsetsFrom_sorted (offset : Nat) (cs : List Char) :
    (Source.offsetsFrom offset cs).Pairwise (· < ·) ∧ ∀ n ∈ Source.offsetsFrom offset cs, offset ≤ n := by
  induction cs generalizing offset with
  | nil => simp [Source.offsetsFrom]
  | cons c cs ih =>
      obtain ⟨hsorted, hle⟩ := ih (offset + c.utf8Size)
      have hc := c.utf8Size_pos
      refine ⟨List.pairwise_cons.mpr ⟨fun n hn => ?_, hsorted⟩, fun n hn => ?_⟩
      · have hn' := hle n hn
        omega
      · rcases List.mem_cons.mp hn with rfl | hn
        · exact Nat.le_refl _
        · have hn' := hle n hn
          omega

/-- **Lines do not go back** from one offset to a later one. -/
theorem position?_line_mono {text : String} {a b : Nat} {p q : Position} (hab : a ≤ b)
    (hp : (LineIndex.ofSource (.ofString text)).position? a = some p)
    (hq : (LineIndex.ofSource (.ofString text)).position? b = some q) : p.line ≤ q.line := by
  let index := LineIndex.ofSource (.ofString text)
  -- the line of an offset is found by counting twice
  have hline : ∀ offset r, index.position? offset = some r →
      r.line = countUpTo index.starts (countUpTo index.offsets offset - 1) - 1 := by
    intro offset r hr
    simp only [LineIndex.position?, placeAt?, Option.bind_eq_bind, Option.bind_eq_some_iff] at hr
    obtain ⟨place, hplace, start, -, hr⟩ := hr
    split at hplace
    · obtain rfl := Option.some.inj hplace
      obtain rfl := Option.some.inj hr
      rfl
    · cases hplace
  have hplaces : countUpTo index.offsets a ≤ countUpTo index.offsets b :=
    countUpTo_mono (Source.offsetsFrom_sorted 0 _).1 hab
  have hlines : countUpTo index.starts (countUpTo index.offsets a - 1) ≤
      countUpTo index.starts (countUpTo index.offsets b - 1) := by
    rw [LineIndex.ofSource_starts]
    exact countUpTo_mono (lineStarts_sorted _) (by omega)
  rw [hline a p hp, hline b q hq]
  omega

/-- **The position of a place** is told by the line starts up to it: how many there are, and how far behind the last of
them the place is. -/
theorem LineIndex.position?_of_place {index : LineIndex} {starts : List Nat} {offset place start : Nat}
    (hplace : placeAt? index.offsets offset = some place) (hstarts : index.starts = starts.toArray)
    (hsorted : starts.Pairwise (· < ·)) (hlast : (starts.filter (· ≤ place)).getLast? = some start) :
    index.position? offset = some ⟨(starts.filter (· ≤ place)).length - 1, place - start,
      (index.source.slice start place).foldr (fun c n => units16 c + n) 0⟩ := by
  obtain ⟨hle, hsplit⟩ := countUpTo_filter hsorted place
  have hcount : (starts.filter (· ≤ place)).length = countUpTo starts.toArray place := by
    rw [hsplit, List.length_take, Nat.min_eq_left hle]
  have hpos : 0 < (starts.filter (· ≤ place)).length := List.length_pos_of_mem (List.mem_of_getLast? hlast)
  have hstart : starts[countUpTo starts.toArray place - 1]? = some start := by
    rw [hcount] at hpos
    rw [← hlast, hsplit, List.getLast?_eq_getElem?, List.length_take, Nat.min_eq_left hle,
      List.getElem?_take_of_lt (Nat.sub_lt hpos Nat.one_pos)]
  rw [hcount]
  simp only [LineIndex.position?, hplace, hstarts, List.getElem?_toArray, hstart, Option.bind_eq_bind,
    Option.bind_some, Option.pure_def]

/-- **The position of the end of a part of the text** is its line and its column. -/
theorem position?_prefix (before after : String) :
    ((LineIndex.ofSource (.ofString (before ++ after))).position? before.utf8ByteSize).map
        (fun p => (p.line, p.column)) =
      some (lineAt (before ++ after).toList before.length, columnAt (before ++ after).toList before.length) := by
  let cs := (before ++ after).toList
  let index := LineIndex.ofSource (.ofString (before ++ after))
  have hlength : before.length ≤ cs.length := by
    rw [String.length_toList, String.length_append]
    omega
  have hplace : placeAt? index.offsets before.utf8ByteSize = some before.length := placeAt_prefix before after
  have hfilter := lineStarts_filter hlength
  obtain ⟨start, hlast, hcolumn⟩ := lastStart cs before.length
  have hsub : before.length - start = columnAt cs before.length := by omega
  rw [LineIndex.position?_of_place hplace (LineIndex.ofSource_starts _) (lineStarts_sorted _)
    (hfilter ▸ hlast), Option.map_some, hfilter, hsub, List.length_cons, List.length_map, Nat.add_sub_cancel,
    ← List.countP_eq_length_filter]
  rfl

end ComponentMarkup.Text
