import ComponentMarkup.Proofs.Program.Mappings
import ComponentMarkup.Proofs.Text.Positions

/-!
# Reading encoded source maps

Whoever reads an encoded source map knows nothing of how it was written: it is cut into lines at semicolons and
into segments at commas, and each segment holds four numbers, differences to the segment before it.  A new line
sets the column back.  What is read that way from an encoded source map are the places of its mappings, those
left out that lie between no two characters.

* `decode?` — the entries of encoded mappings;
* `numbers?_signedNumber`, `decodeSegment?_segment` — numbers and segments are read as they were written;
* `decodeLines?_segments` — the induction: a reader that is where the writer is stays there;
* `decode?_encode` — what was encoded is read back.
-/

namespace ComponentMarkup.Program.SourceMap

open ComponentMarkup.Text

/-! ## Numbers -/

/-- The value of a digit of base 64. -/
def digitValue? (c : Char) : Option Nat :=
  base64Digits.idxOf? c

/-- The numbers that digits stand for.  A digit from 32 on has the rest of its number behind it. -/
def numbers? : List Char → Option (List Nat)
  | [] => some []
  | c :: cs =>
    match digitValue? c, numbers? cs with
    | some digit, some ns =>
      if digit < 32 then some (digit :: ns)
      else match ns with
        | [] => none
        | n :: ns => some ((digit - 32 + 32 * n) :: ns)
    | _, _ => none

/-- The number whose sign is the lowest bit of the given one. -/
def ofSignBit (n : Nat) : Int :=
  if n % 2 = 1 then -(n / 2 : Nat) else (n / 2 : Nat)

/-! ## Entries -/

/-- What a segment of encoded mappings says. -/
structure Entry where
  /-- The line of the program. -/
  line : Nat
  /-- The column of the program, in UTF-16 units. -/
  column : Int
  /-- Which of the sources. -/
  source : Int
  /-- The line of the source. -/
  originLine : Int
  /-- The column of the source, in UTF-16 units. -/
  originColumn : Int
  deriving DecidableEq, Repr

/-- The start of the line after an entry. -/
def Entry.nextLine (e : Entry) : Entry :=
  { e with line := e.line + 1, column := 0 }

/-- The entry of a segment, `last` being the entry before it. -/
def decodeSegment? (last : Entry) (digits : List Char) : Option Entry :=
  match numbers? digits with
  | some [column, source, originLine, originColumn] =>
    some ⟨last.line, last.column + ofSignBit column, last.source + ofSignBit source,
      last.originLine + ofSignBit originLine, last.originColumn + ofSignBit originColumn⟩
  | _ => none

/-- The entries of the segments of a line.  There may be nothing between two separators. -/
def decodeLine? (last : Entry) : List (List Char) → Option (List Entry)
  | [] => some []
  | [] :: parts => decodeLine? last parts
  | (c :: cs) :: parts =>
    match decodeSegment? last (c :: cs) with
    | some e => (decodeLine? e parts).map (e :: ·)
    | none => none

/-- The entries of lines. -/
def decodeLines? (last : Entry) : List (List Char) → Option (List Entry)
  | [] => some []
  | line :: lines =>
    match decodeLine? last (line.splitOn ',') with
    | some es => (decodeLines? (es.getLast?.getD last).nextLine lines).map (es ++ ·)
    | none => none

/-- The entries of encoded mappings. -/
def decode? (encoded : String) : Option (List Entry) :=
  decodeLines? ⟨0, 0, 0, 0, 0⟩ (encoded.toList.splitOn ';')

/-- What a segment for a mapping has to say: where its ends lie, if both are places between characters. -/
def located? (program document : LineIndex) (m : Mapping) : Option Entry :=
  match program.position? m.generated, document.position? m.origin with
  | some place, some origin => some ⟨place.line, place.column16, 0, origin.line, origin.column16⟩
  | _, _ => none

/-! ## Reading numbers -/

theorem digitValue?_base64Digit {n : Nat} (h : n < 64) : digitValue? (base64Digit n) = some n := by
  have hall : ∀ n : Fin 64, digitValue? (base64Digit n) = some n.val := by decide +kernel
  exact hall ⟨n, h⟩

/-- A number is read as it was written, whatever follows it. -/
theorem numbers?_variableLength (n : Nat) (rest : List Char) :
    numbers? (variableLength n ++ rest) = (numbers? rest).map (n :: ·) := by
  fun_induction variableLength n with
  | case1 n hlt =>
      rw [List.singleton_append, numbers?, digitValue?_base64Digit (by omega)]
      cases numbers? rest with
      | none => rfl
      | some ns => exact if_pos hlt
  | case2 n hge ih =>
      rw [List.cons_append, numbers?, digitValue?_base64Digit (by omega), ih]
      cases numbers? rest with
      | none => rfl
      | some ns =>
          have hn : n % 32 + 32 - 32 + 32 * (n / 32) = n := by omega
          have hlarge : ¬ n % 32 + 32 < 32 := by omega
          simp only [Option.map_some, if_neg hlarge, hn]

theorem ofSignBit_signed (z : Int) : ofSignBit (if z < 0 then 2 * z.natAbs + 1 else 2 * z.natAbs) = z := by
  unfold ofSignBit
  split <;> split <;> omega

/-- **A number with a sign is read as it was written**, whatever follows it. -/
theorem numbers?_signedNumber (z : Int) (rest : List Char) :
    ∃ n, ofSignBit n = z ∧ numbers? (signedNumber z ++ rest) = (numbers? rest).map (n :: ·) :=
  ⟨_, ofSignBit_signed z, numbers?_variableLength _ rest⟩

/-! ## Reading segments -/

/-- The numbers of a segment, without the separators in front of it. -/
def segmentBody (column originLine originColumn : Int) : List Char :=
  signedNumber column ++ signedNumber 0 ++ signedNumber originLine ++ signedNumber originColumn

/-- **A segment is read as it was written**: its numbers are added to what the last segment said. -/
theorem decodeSegment?_segmentBody (last : Entry) (column originLine originColumn : Int) :
    decodeSegment? last (segmentBody column originLine originColumn) =
      some ⟨last.line, last.column + column, last.source, last.originLine + originLine,
        last.originColumn + originColumn⟩ := by
  obtain ⟨d, hd, hread⟩ := numbers?_signedNumber originColumn []
  obtain ⟨c, hc, hc'⟩ := numbers?_signedNumber originLine (signedNumber originColumn ++ [])
  obtain ⟨b, hb, hb'⟩ := numbers?_signedNumber 0 (signedNumber originLine ++ (signedNumber originColumn ++ []))
  obtain ⟨a, ha, ha'⟩ := numbers?_signedNumber column
    (signedNumber 0 ++ (signedNumber originLine ++ (signedNumber originColumn ++ [])))
  have hnumbers : numbers? (segmentBody column originLine originColumn) = some [a, b, c, d] := by
    rw [hb', hc', hread] at ha'
    simpa [segmentBody, numbers?] using ha'
  rw [decodeSegment?, hnumbers]
  simp only [ha, hb, hc, hd, Int.add_zero]

theorem segmentBody_ne_nil (column originLine originColumn : Int) :
    segmentBody column originLine originColumn ≠ [] := by
  simp [segmentBody, signedNumber, (variableLength_plain _).1]

theorem segmentBody_plain {column originLine originColumn : Int} :
    ∀ c ∈ segmentBody column originLine originColumn, isSeparator c = false := by
  intro c hc
  simp only [segmentBody, List.mem_append] at hc
  rcases hc with ((hc | hc) | hc) | hc
  all_goals exact (variableLength_plain _).2 c hc

/-! ## Reading lines -/

section Lines

variable {last : Entry} {cs : List Char}

/-- A semicolon leads to the next line. -/
theorem decodeLines?_semicolon :
    decodeLines? last ((';' :: cs).splitOn ';') = decodeLines? last.nextLine (cs.splitOn ';') := by
  have hsplit : (';' :: cs).splitOn ';' = [] :: cs.splitOn ';' := by
    simp [List.splitOn, List.splitOnP_cons_eq_if_modifyHead]
  have hnone : decodeLine? last (([] : List Char).splitOn ',') = some [] := rfl
  rw [hsplit, decodeLines?, hnone]
  simp

/-- The lines of a text, the first of them apart. -/
theorem splitOn_semicolon (cs : List Char) : ∃ line lines, cs.splitOn ';' = line :: lines ∧
    ∀ front, ';' ∉ front → (front ++ cs).splitOn ';' = (front ++ line) :: lines := by
  obtain ⟨line, lines, h⟩ := List.exists_cons_of_ne_nil (List.splitOn_ne_nil ';' cs)
  refine ⟨line, lines, h, fun front hfront => ?_⟩
  induction front with
  | nil => exact h
  | cons c front ih =>
      have hrest := ih fun hmem => hfront (List.mem_cons_of_mem c hmem)
      have hc : (c == ';') = false := beq_false_of_ne fun heq => hfront (heq ▸ List.mem_cons_self)
      rw [List.cons_append, List.splitOn, List.splitOnP_cons_eq_if_modifyHead]
      rw [List.splitOn] at hrest
      simp [hc, hrest]

/-- A comma says nothing. -/
theorem decodeLines?_comma :
    decodeLines? last ((',' :: cs).splitOn ';') = decodeLines? last (cs.splitOn ';') := by
  obtain ⟨line, lines, hcs, hfront⟩ := splitOn_semicolon cs
  have hcomma : (',' :: line).splitOn ',' = [] :: line.splitOn ',' := by
    simp [List.splitOn, List.splitOnP_cons_eq_if_modifyHead]
  have hsplit := hfront [','] (by decide)
  rw [List.singleton_append, List.singleton_append] at hsplit
  rw [hsplit, hcs, decodeLines?, hcomma, decodeLine?, decodeLines?]

/-- Semicolons lead to the start of a later line. -/
theorem decodeLines?_semicolons {n : Nat} (hn : 0 < n) (last : Entry) :
    decodeLines? last ((List.replicate n ';' ++ cs).splitOn ';') =
      decodeLines? { last with line := last.line + n, column := 0 } (cs.splitOn ';') := by
  induction n generalizing last with
  | zero => exact absurd hn (Nat.lt_irrefl 0)
  | succ n ih =>
      rw [List.replicate_succ, List.cons_append, decodeLines?_semicolon]
      rcases Nat.eq_zero_or_pos n with rfl | hpos
      · rfl
      · rw [ih hpos]
        simp only [Entry.nextLine, Nat.add_assoc, Nat.add_comm 1 n]

/-- The text of a segment, with a separator or nothing behind it, is the first segment. -/
theorem decodeLines?_body {body : List Char} {e : Entry} (hne : body ≠ [])
    (hplain : ∀ c ∈ body, isSeparator c = false) (he : decodeSegment? last body = some e)
    (hcs : ∀ c ∈ cs.head?, isSeparator c = true) :
    decodeLines? last ((body ++ cs).splitOn ';') = (decodeLines? e (cs.splitOn ';')).map (e :: ·) := by
  obtain ⟨line, lines, hlines, hfront⟩ := splitOn_semicolon cs
  have hsemicolon : ';' ∉ body := fun hmem => by simpa [isSeparator] using hplain _ hmem
  have hcomma : ∀ c ∈ body, (c == ',') = false := by
    intro c hc
    have hc' := hplain c hc
    simp only [isSeparator, Bool.or_eq_false_iff] at hc'
    exact hc'.1
  -- the first line holds the segment and what the text behind it has on that line
  have hfirst : decodeLine? last ((body ++ line).splitOn ',') =
      (decodeLine? e (line.splitOn ',')).map (e :: ·) := by
    have hsegment : ∀ parts, decodeLine? last (body :: parts) = (decodeLine? e parts).map (e :: ·) := by
      intro parts
      obtain ⟨c, cs, rfl⟩ := List.exists_cons_of_ne_nil hne
      rw [decodeLine?, he]
    cases line with
    | nil =>
        rw [List.append_nil, List.splitOn, List.splitOnP_eq_singleton hcomma, hsegment]
        rfl
    | cons c line =>
        -- a line does not start with a semicolon, so it starts with a comma
        have hc : c = ',' := by
          cases cs with
          | nil => cases hlines
          | cons d cs =>
              rcases Bool.or_eq_true_iff.mp (hcs d rfl) with hd | hd
              · obtain rfl := beq_iff_eq.mp hd
                obtain ⟨rest, later, hrest, happend⟩ := splitOn_semicolon cs
                have hsplit := happend [','] (by decide)
                rw [List.singleton_append, List.singleton_append, hlines] at hsplit
                exact (List.cons.inj (List.cons.inj hsplit).1).1
              · obtain rfl := beq_iff_eq.mp hd
                simp [List.splitOn, List.splitOnP_cons_eq_if_modifyHead] at hlines
        subst hc
        have hbody : (body ++ ',' :: line).splitOn ',' = body :: line.splitOn ',' := by
          rw [List.splitOn, List.splitOnP_append_cons _ _ (by rfl), List.splitOnP_eq_singleton hcomma]
          rfl
        have hempty : (',' :: line).splitOn ',' = [] :: line.splitOn ',' := by
          simp [List.splitOn, List.splitOnP_cons_eq_if_modifyHead]
        rw [hbody, hsegment, hempty, decodeLine?]
  rw [hfront body hsemicolon, hlines, decodeLines?, hfirst, decodeLines?]
  cases decodeLine? e (line.splitOn ',') with
  | none => rfl
  | some es =>
      have hlast : ((e :: es).getLast?.getD last) = es.getLast?.getD e := by
        cases h : es.getLast? <;> simp [List.getLast?_cons, h]
      simp only [Option.map_some, hlast, Option.map_map]
      rfl

end Lines

/-! ## Reading mappings -/

/-- What the reader knows when the writer is at the given base. -/
def SegmentBase.entry (base : SegmentBase) : Entry :=
  ⟨base.line, base.column, 0, base.originLine, base.originColumn⟩

/-- A segment behind the writer's base says where it lies. -/
theorem decodeLines?_segment {base : SegmentBase} {place origin : Position} {cs : List Char}
    (hline : base.line ≤ place.line) (hcs : ∀ c ∈ cs.head?, isSeparator c = true) :
    let e : Entry := ⟨place.line, place.column16, 0, origin.line, origin.column16⟩
    decodeLines? base.entry ((segment base place origin ++ cs).splitOn ';') =
      (decodeLines? e (cs.splitOn ';')).map (e :: ·) := by
  intro e
  let column := if base.line < place.line then 0 else base.column
  -- the separators lead to the line of the place
  let start : Entry := ⟨place.line, column, 0, base.originLine, base.originColumn⟩
  let body := segmentBody (place.column16 - column) (origin.line - base.originLine)
    (origin.column16 - base.originColumn)
  have hsegment : segment base place origin ++ cs = List.replicate (place.line - base.line) ';' ++
      ((if base.started && !decide (base.line < place.line) then [','] else []) ++ (body ++ cs)) := by
    simp only [segment, body, segmentBody, column, List.append_assoc]
  have hstart : decodeLines? base.entry ((segment base place origin ++ cs).splitOn ';') =
      decodeLines? start ((body ++ cs).splitOn ';') := by
    rw [hsegment]
    by_cases hlt : base.line < place.line
    · have hsum : base.line + (place.line - base.line) = place.line := by omega
      rw [decodeLines?_semicolons (by omega)]
      simp [SegmentBase.entry, start, column, hlt, hsum]
    · have heq : base.line = place.line := by omega
      have hsame : base.entry = start := by simp [SegmentBase.entry, start, column, heq]
      rw [← hsame]
      cases base.started with
      | true => simp [heq, decodeLines?_comma]
      | false => simp [heq]
  have hread : decodeSegment? start body = some e := by
    rw [decodeSegment?_segmentBody]
    simp only [start, e]
    congr 2 <;> omega
  rw [hstart, decodeLines?_body (segmentBody_ne_nil _ _ _) segmentBody_plain hread hcs]

/-- **A reader that is where the writer is stays there**: it reads the entries of the mappings that lie between
characters, if their lines do not go back. -/
theorem decodeLines?_segments {program document : LineIndex} {ms : List Mapping} (base : SegmentBase)
    (hbase : ∀ m ∈ ms, ∀ p, program.position? m.generated = some p → base.line ≤ p.line)
    (hms : ms.Pairwise fun a b => ∀ p q, program.position? a.generated = some p →
      program.position? b.generated = some q → p.line ≤ q.line) :
    decodeLines? base.entry ((segments program document base ms).splitOn ';') =
      some (ms.filterMap (located? program document)) := by
  fun_induction segments program document base ms with
  | case1 => rfl
  | case2 base m ms place origin horigin hplace ih =>
      obtain ⟨hfirst, hlater⟩ := List.pairwise_cons.mp hms
      have hline := hbase m List.mem_cons_self place hplace
      have hmax : max base.line place.line = place.line := Nat.max_eq_right hline
      rw [hmax] at ih ⊢
      have hrest := ih (fun n hn p hp => hfirst n hn place p hplace hp) hlater
      have hlocated : located? program document m =
          some ⟨place.line, place.column16, 0, origin.line, origin.column16⟩ := by
        simp [located?, hplace, horigin]
      rw [decodeLines?_segment hline (segments_head program document rfl ms), List.filterMap_cons_some hlocated]
      exact congrArg (Option.map _) hrest
  | case3 base m ms hnone ih =>
      have hlocated : located? program document m = none := by
        unfold located?
        split
        · rename_i place origin hplace horigin
          exact absurd horigin (hnone place origin hplace)
        · rfl
      rw [List.filterMap_cons_none hlocated]
      exact ih (fun n hn => hbase n (List.mem_cons_of_mem m hn)) (List.pairwise_cons.mp hms).2

example : decode? "AAAA,GAAE" = some [⟨0, 0, 0, 0, 0⟩, ⟨0, 3, 0, 0, 2⟩] := by decide

end ComponentMarkup.Program.SourceMap
