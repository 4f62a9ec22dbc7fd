import ComponentMarkup.Proofs.Text.Stretch
import ComponentMarkup.Text.Line

/-!
# Lines in order

Blocks are read from lists of lines: stretches of the text that follow each other, with line ends and
whatever belongs to the blocks around them left out in between.

* `Lines` — lines between two places, one after the other;
* `Lines.split`, `Lines.takeWhile`, `Lines.map` — lists of lines taken apart and narrowed;
* `Region` — lines that start and end at two given places;
* `lineSpans_region` — the lines of a stretch reach from its start to its end.
-/

namespace ComponentMarkup.Text

/-- Lines between two places, each behind the one before it. -/
def Lines (lo hi : Nat) : List Span → Prop
  | [] => lo ≤ hi
  | line :: lines => lo ≤ line.start ∧ line.start ≤ line.stop ∧ Lines line.stop hi lines

/-- Where the last of several lines ends, or the given place if there is none. -/
def lastStop (place : Nat) (lines : List Span) : Nat :=
  (lines.getLast?.map Span.stop).getD place

/-- The last line of a list with a line in front. -/
theorem lastStop_cons (place : Nat) (line : Span) (lines : List Span) :
    lastStop place (line :: lines) = lastStop line.stop lines := by
  cases lines with
  | nil => rfl
  | cons next lines =>
      unfold lastStop
      rw [List.getLast?_cons_cons, List.getLast?_eq_some_getLast (List.cons_ne_nil next lines)]
      rfl

namespace Lines

variable {lo hi : Nat} {lines : List Span}

theorem le (h : Lines lo hi lines) : lo ≤ hi := by
  induction lines generalizing lo with
  | nil => exact h
  | cons line lines ih =>
      obtain ⟨hstart, hline, hlines⟩ := h
      have hrest := ih hlines
      omega

theorem mono {lo' hi' : Nat} (h : Lines lo hi lines) (hlo : lo' ≤ lo) (hhi : hi ≤ hi') :
    Lines lo' hi' lines := by
  induction lines generalizing lo lo' with
  | nil => exact Nat.le_trans hlo (Nat.le_trans h hhi)
  | cons line lines ih => exact ⟨Nat.le_trans hlo h.1, h.2.1, ih h.2.2 (Nat.le_refl _)⟩

/-- A list of lines, cut in two where the last line of the first part ends. -/
theorem split {xs ys : List Span} (h : Lines lo hi (xs ++ ys)) :
    Lines lo (lastStop lo xs) xs ∧ Lines (lastStop lo xs) hi ys := by
  induction xs generalizing lo with
  | nil => exact ⟨Nat.le_refl lo, h⟩
  | cons x xs ih =>
      obtain ⟨hx, hy⟩ := ih h.2.2
      rw [lastStop_cons]
      exact ⟨⟨h.1, h.2.1, hx⟩, hy⟩

/-- Lines end where the last of them ends. -/
theorem narrow (h : Lines lo hi lines) : Lines lo (lastStop lo lines) lines := by
  rw [← List.append_nil lines] at h
  exact h.split.1

/-- Lines up to the end of the last of them. -/
theorem tight {line : Span} (h : Lines lo hi (line :: lines)) : Lines lo (lastStop line.stop lines) (line :: lines) := by
  have hnarrow := h.narrow
  rwa [lastStop_cons] at hnarrow

/-- The last line ends between the two places. -/
theorem lastStop_bounds (h : Lines lo hi lines) : lo ≤ lastStop lo lines ∧ lastStop lo lines ≤ hi := by
  rw [← List.append_nil lines] at h
  exact ⟨h.split.1.le, h.split.2⟩

/-- The first lines that satisfy a test, and those after them. -/
theorem takeWhile (h : Lines lo hi lines) (p : Span → Bool) :
    Lines lo (lastStop lo (lines.takeWhile p)) (lines.takeWhile p) ∧
      Lines (lastStop lo (lines.takeWhile p)) hi (lines.dropWhile p) := by
  rw [← List.takeWhile_append_dropWhile (p := p) (l := lines)] at h
  exact h.split

/-- Every line lies between the two places. -/
theorem mem (h : Lines lo hi lines) {line : Span} (hline : line ∈ lines) :
    lo ≤ line.start ∧ line.start ≤ line.stop ∧ line.stop ≤ hi := by
  obtain ⟨before, after, rfl⟩ := List.append_of_mem hline
  obtain ⟨hbefore, hstart, hle, hafter⟩ := h.split
  exact ⟨Nat.le_trans hbefore.le hstart, hle, hafter.le⟩

/-- No place lies in two lines. -/
theorem unique (h : Lines lo hi lines) {a b : Span} {p : Nat} (ha : a ∈ lines) (hb : b ∈ lines)
    (hain : a.start ≤ p ∧ p < a.stop) (hbin : b.start ≤ p ∧ p < b.stop) : a = b := by
  induction lines generalizing lo with
  | nil => exact absurd ha List.not_mem_nil
  | cons line lines ih =>
      obtain ⟨_, _, hlines⟩ := h
      rcases List.mem_cons.mp ha with rfl | hbelow
      · rcases List.mem_cons.mp hb with rfl | hbelow'
        · rfl
        · have hbehind := (hlines.mem hbelow').1
          omega
      · rcases List.mem_cons.mp hb with rfl | hbelow'
        · have hbehind := (hlines.mem hbelow).1
          omega
        · exact ih hlines hbelow hbelow'

/-- Lines stay in order when each is narrowed. -/
theorem map {f : Span → Span} (h : Lines lo hi lines)
    (hf : ∀ line ∈ lines, line.start ≤ (f line).start ∧ (f line).start ≤ (f line).stop ∧
      (f line).stop ≤ line.stop) : Lines lo hi (lines.map f) := by
  induction lines generalizing lo with
  | nil => exact h
  | cons line lines ih =>
      obtain ⟨hstart, hle, hstop⟩ := hf line List.mem_cons_self
      have hrest := ih h.2.2 fun l hl => hf l (List.mem_cons_of_mem _ hl)
      exact ⟨Nat.le_trans h.1 hstart, hle, hrest.mono hstop (Nat.le_refl _)⟩

end Lines

/-- The last line still ends where it did if every line keeps its end. -/
theorem lastStop_map {f : Span → Span} {lines : List Span} (place : Nat)
    (hf : ∀ line ∈ lines, (f line).stop = line.stop) :
    lastStop place (lines.map f) = lastStop place lines := by
  induction lines generalizing place with
  | nil => rfl
  | cons line lines ih =>
      rw [List.map_cons, lastStop_cons, lastStop_cons, hf line List.mem_cons_self,
        ih _ fun l hl => hf l (List.mem_cons_of_mem _ hl)]

/-! ## Regions -/

/-- Lines of which the first starts at one place and the last ends at another. -/
def Region (lo hi : Nat) (lines : List Span) : Prop :=
  ∃ first later, lines = first :: later ∧ first.start = lo ∧ lo ≤ first.stop ∧
    Lines first.stop hi later ∧ lastStop first.stop later = hi

namespace Region

variable {lo hi : Nat} {ls : List Span}

theorem single (h : lo ≤ hi) : Region lo hi [⟨lo, hi⟩] :=
  ⟨⟨lo, hi⟩, [], rfl, rfl, h, Nat.le_refl hi, rfl⟩

theorem lines (h : Region lo hi ls) : Lines lo hi ls := by
  obtain ⟨first, later, rfl, rfl, hle, hlater, _⟩ := h
  exact ⟨Nat.le_refl _, hle, hlater⟩

theorem le (h : Region lo hi ls) : lo ≤ hi :=
  h.lines.le

/-- Lines from the first start to the last end. -/
theorem of_lines {first : Span} {later : List Span} (h : Lines lo hi (first :: later)) :
    Region first.start (lastStop first.stop later) (first :: later) :=
  ⟨first, later, rfl, rfl, h.2.1, h.2.2.narrow, rfl⟩

/-- The place where a region starts. -/
theorem head_start (h : Region lo hi ls) : (ls.head?.map Span.start).getD 0 = lo := by
  obtain ⟨first, later, rfl, hstart, _⟩ := h
  exact hstart

/-- The place where a region ends. -/
theorem last_stop (h : Region lo hi ls) : (ls.getLast?.map Span.stop).getD 0 = hi := by
  obtain ⟨first, later, rfl, _, _, _, hstop⟩ := h
  rw [← hstop]
  exact lastStop_cons 0 first later

theorem cons {first : Span} (h : Region lo hi ls) (hfirst : first.start ≤ first.stop)
    (hle : first.stop ≤ lo) : Region first.start hi (first :: ls) := by
  refine ⟨first, ls, rfl, rfl, hfirst, h.lines.mono hle (Nat.le_refl _), ?_⟩
  obtain ⟨next, later, rfl, _, _, _, hstop⟩ := h
  rw [lastStop_cons, hstop]

end Region

/-! ## Cutting a text into lines -/

/-- The lines of a text reach from the start of the current line to the end of the text. -/
theorem cutLines_region {start here : Nat} (cs : List Char) (h : start ≤ here) :
    Region start (here + cs.length) (cutLines start here cs) := by
  fun_induction cutLines start here cs with
  | case1 start here => exact Region.single h
  | case2 start here cs ih =>
      have hlen : here + ('\r' :: '\n' :: cs).length = here + 2 + cs.length := by
        simp only [List.length_cons]
        omega
      rw [hlen]
      exact (ih (Nat.le_refl _)).cons h (Nat.le_add_right here 2)
  | case3 start here c cs hpair hnewline ih =>
      have hlen : here + (c :: cs).length = here + 1 + cs.length := by
        rw [List.length_cons]
        omega
      rw [hlen]
      exact (ih (Nat.le_refl _)).cons h (Nat.le_add_right here 1)
  | case4 start here c cs hpair hnewline ih =>
      have hlen : here + (c :: cs).length = here + 1 + cs.length := by
        rw [List.length_cons]
        omega
      rw [hlen]
      exact ih (Nat.le_succ_of_le h)

/-- A text without line ends is one line. -/
theorem cutLines_single {text : List Char} (start here : Nat) (h : ∀ c ∈ text, isNewline c = false) :
    cutLines start here text = [⟨start, here + text.length⟩] := by
  induction text generalizing here with
  | nil => rfl
  | cons c text ih =>
      have hc := h c List.mem_cons_self
      rw [cutLines, hc, if_neg Bool.false_ne_true, ih (here + 1) fun d hd => h d (List.mem_cons_of_mem c hd)]
      · rw [List.length_cons, Nat.add_assoc, Nat.add_comm 1]
      · rintro rest rfl -
        exact absurd hc (by decide)

/-- A line without line ends inside stops where a line feed stands. -/
theorem cutLines_feed {text : List Char} (start here : Nat) (rest : List Char)
    (h : ∀ c ∈ text, isNewline c = false) : cutLines start here (text ++ '\n' :: rest) =
      ⟨start, here + text.length⟩ :: cutLines (here + text.length + 1) (here + text.length + 1) rest := by
  induction text generalizing here with
  | nil =>
      rw [List.nil_append, cutLines, if_pos (by rfl)]
      · rfl
      · rintro cs ⟨⟩
  | cons c text ih =>
      have hc := h c List.mem_cons_self
      rw [List.cons_append, cutLines, hc, if_neg Bool.false_ne_true,
        ih (here + 1) fun d hd => h d (List.mem_cons_of_mem c hd), List.length_cons]
      · simp only [Nat.add_assoc, Nat.add_comm 1]
      · rintro cs rfl -
        exact absurd hc (by decide)

/-- The lines of a stretch reach from its start to its end. -/
theorem lineSpans_region {src : Source} {s : Span} (hle : s.start ≤ s.stop) (hstop : s.stop ≤ src.size) :
    Region s.start s.stop (lineSpans src s) := by
  have hregion := cutLines_region (src.slice s.start s.stop) (Nat.le_refl s.start)
  rwa [src.length_slice hstop, Nat.add_sub_cancel' hle] at hregion

end ComponentMarkup.Text
