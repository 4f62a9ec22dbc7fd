import ComponentMarkup.Proofs.Program.CodeText
import ComponentMarkup.Proofs.Text.Positions
import ComponentMarkup.Program.SourceMap
import Mathlib.Data.List.Chain

/-!
# Mappings of a program

The marks of laid out chunks become mappings, in the order of the program.  A mark that says what the one before
it said is left out, so no mapping is repeated.  A mark in front of a text maps the whole text, up to the next
mark: whatever place of it is looked up, the mark's offset is found.

* `mappingsFrom_append` — mappings of chunks that follow each other;
* `ofChunks_ordered`, `ofChunks_distinct`, `ofChunks_mark` — order, neighbours and places of mappings;
* `ofChunks_origin?` — looking up a place of a text behind a mark;
* `segmentTexts_encode` — an encoded source map has one segment for each mapping.
-/

namespace ComponentMarkup.Text

/-- A byte offset of a text that lies between two characters, or at an end. -/
def IsBoundary (text : String) (offset : Nat) : Prop :=
  ∃ before after, text = before ++ after ∧ offset = before.utf8ByteSize

/-- A byte offset between characters has a position. -/
theorem IsBoundary.position? {text : String} {offset : Nat} (h : IsBoundary text offset) :
    ((LineIndex.ofSource (.ofString text)).position? offset).isSome := by
  obtain ⟨before, after, rfl, rfl⟩ := h
  rw [← Option.isSome_map, position?_prefix]
  rfl

end ComponentMarkup.Text

namespace ComponentMarkup.Program

open ComponentMarkup.Text

variable {chunks before after : List Chunk} {offset : Nat} {last : Option Mapping} {m : Mapping}

/-! ## Chunks one after the other -/

/-- The bytes of the text of chunks. -/
def chunkSize (chunks : List Chunk) : Nat :=
  (chunkText chunks).utf8ByteSize

@[simp] theorem chunkSize_nil : chunkSize [] = 0 :=
  rfl

@[simp] theorem chunkSize_text (t : String) (chunks : List Chunk) :
    chunkSize (.text t :: chunks) = t.utf8ByteSize + chunkSize chunks := by
  simp [chunkSize, chunkText]

@[simp] theorem chunkSize_mark (o : Nat) (chunks : List Chunk) : chunkSize (.mark o :: chunks) = chunkSize chunks := by
  simp [chunkSize, chunkText]

/-- The last mapping of some, or the one before them. -/
def latest (last : Option Mapping) (ms : List Mapping) : Option Mapping :=
  ms.getLast?.or last

theorem latest_cons (last : Option Mapping) (m : Mapping) (ms : List Mapping) :
    latest last (m :: ms) = latest (some m) ms := by
  cases h : ms.getLast? with
  | none =>
      obtain rfl := List.getLast?_eq_none_iff.mp h
      rfl
  | some n => simp [latest, List.getLast?_cons, h]

/-- **The mappings of chunks that follow each other** are those of the first, and those of the others behind them. -/
theorem mappingsFrom_append (offset : Nat) (last : Option Mapping) (before after : List Chunk) :
    mappingsFrom offset last (before ++ after) =
      mappingsFrom offset last before ++
        mappingsFrom (offset + chunkSize before) (latest last (mappingsFrom offset last before)) after := by
  induction before generalizing offset last with
  | nil => simp [mappingsFrom, latest]
  | cons chunk before ih =>
      cases chunk with
      | text t => rw [List.cons_append, mappingsFrom, mappingsFrom, ih, chunkSize_text, Nat.add_assoc]
      | mark o =>
          rw [List.cons_append, mappingsFrom, mappingsFrom, chunkSize_mark]
          split
          · exact ih offset last
          · rw [ih, List.cons_append, latest_cons]

/-! ## Order -/

/-- No mapping of chunks lies before their start or behind their end. -/
theorem mappingsFrom_bounds (hm : m ∈ mappingsFrom offset last chunks) :
    offset ≤ m.generated ∧ m.generated ≤ offset + chunkSize chunks := by
  induction chunks generalizing offset last with
  | nil => cases hm
  | cons chunk chunks ih =>
      cases chunk with
      | text t =>
          have hrest := ih hm
          rw [chunkSize_text]
          omega
      | mark o =>
          rw [chunkSize_mark]
          unfold mappingsFrom at hm
          dsimp only at hm
          split at hm
          · exact ih hm
          · rcases List.mem_cons.mp hm with rfl | hm
            · exact ⟨Nat.le_refl _, Nat.le_add_right _ _⟩
            · exact ih hm

/-- Mappings are in the order of the program. -/
theorem mappingsFrom_ordered (offset : Nat) (last : Option Mapping) (chunks : List Chunk) :
    (mappingsFrom offset last chunks).Pairwise fun a b => a.generated ≤ b.generated := by
  induction chunks generalizing offset last with
  | nil => exact .nil
  | cons chunk chunks ih =>
      cases chunk with
      | text t => exact ih _ _
      | mark o =>
          unfold mappingsFrom
          dsimp only
          split
          · exact ih _ _
          · exact .cons (fun m hm => (mappingsFrom_bounds hm).1) (ih _ _)

/-- No mapping repeats the one before it. -/
theorem mappingsFrom_distinct (offset : Nat) (last : Option Mapping) (chunks : List Chunk) :
    (last.toList ++ mappingsFrom offset last chunks).IsChain (· ≠ ·) := by
  induction chunks generalizing offset last with
  | nil =>
      cases last with
      | none => exact .nil
      | some m => exact .singleton m
  | cons chunk chunks ih =>
      cases chunk with
      | text t => exact ih _ _
      | mark o =>
          unfold mappingsFrom
          dsimp only
          split
          · exact ih _ _
          · rename_i hne
            have hrest := ih offset (some ⟨offset, o⟩)
            cases last with
            | none => exact hrest
            | some m => exact .cons_cons (fun heq => hne (congrArg some heq)) hrest

/-- Every mapping stems from a mark, and lies where the text before the mark ends. -/
theorem mappingsFrom_mark (hm : m ∈ mappingsFrom offset last chunks) :
    ∃ before after, chunks = before ++ .mark m.origin :: after ∧ m.generated = offset + chunkSize before := by
  induction chunks generalizing offset last with
  | nil => cases hm
  | cons chunk chunks ih =>
      cases chunk with
      | text t =>
          obtain ⟨before, after, rfl, hplace⟩ := ih hm
          refine ⟨.text t :: before, after, rfl, ?_⟩
          rw [hplace, chunkSize_text, Nat.add_assoc]
      | mark o =>
          have hcons : m ∈ mappingsFrom offset (some ⟨offset, o⟩) chunks ∨ m ∈ mappingsFrom offset last chunks ∨
              m = ⟨offset, o⟩ := by
            unfold mappingsFrom at hm
            dsimp only at hm
            split at hm
            · exact .inr (.inl hm)
            · rcases List.mem_cons.mp hm with heq | hm
              · exact .inr (.inr heq)
              · exact .inl hm
          rcases hcons with hm | hm | rfl
          · obtain ⟨before, after, rfl, hplace⟩ := ih hm
            exact ⟨.mark o :: before, after, rfl, by rw [hplace, chunkSize_mark]⟩
          · obtain ⟨before, after, rfl, hplace⟩ := ih hm
            exact ⟨.mark o :: before, after, rfl, by rw [hplace, chunkSize_mark]⟩
          · exact ⟨[], chunks, rfl, rfl⟩

/-! ## The source map of chunks -/

namespace SourceMap

theorem ofChunks_mappings (chunks : List Chunk) : (ofChunks chunks).mappings = mappingsFrom 0 none chunks := by
  refine List.mergeSort_of_pairwise ((mappingsFrom_ordered 0 none chunks).imp fun hle => ?_)
  exact decide_eq_true hle

theorem ofChunks_ordered (chunks : List Chunk) :
    (ofChunks chunks).mappings.Pairwise fun a b => a.generated ≤ b.generated := by
  rw [ofChunks_mappings]
  exact mappingsFrom_ordered 0 none chunks

theorem ofChunks_distinct (chunks : List Chunk) : (ofChunks chunks).mappings.IsChain (· ≠ ·) := by
  rw [ofChunks_mappings]
  exact mappingsFrom_distinct 0 none chunks

/-- Every mapping lies at a mark of its origin. -/
theorem ofChunks_mark (hm : m ∈ (ofChunks chunks).mappings) :
    ∃ before after, chunks = before ++ .mark m.origin :: after ∧ m.generated = chunkSize before := by
  rw [ofChunks_mappings] at hm
  obtain ⟨before, after, hchunks, hplace⟩ := mappingsFrom_mark hm
  exact ⟨before, after, hchunks, by rw [hplace, Nat.zero_add]⟩

/-- The mappings around a mark: those at or before its place, its own being the last of them, and those behind the
text that follows it. -/
theorem ofChunks_around (before after : List Chunk) (o : Nat) (t : String) :
    ∃ first behind, (ofChunks (before ++ .mark o :: .text t :: after)).mappings = first ++ behind ∧
      first.getLast? = some ⟨chunkSize before, o⟩ ∧ (∀ m ∈ first, m.generated ≤ chunkSize before) ∧
      ∀ m ∈ behind, chunkSize before + t.utf8ByteSize ≤ m.generated := by
  have hbounds : ∀ m ∈ mappingsFrom 0 none before, m.generated ≤ chunkSize before := by
    intro m hm
    have hle := (mappingsFrom_bounds hm).2
    omega
  have hbehind : ∀ last, ∀ m ∈ mappingsFrom (chunkSize before) last (.text t :: after),
      chunkSize before + t.utf8ByteSize ≤ m.generated := by
    intro last m hm
    rw [mappingsFrom] at hm
    exact (mappingsFrom_bounds hm).1
  rw [ofChunks_mappings, mappingsFrom_append, Nat.zero_add, mappingsFrom]
  split
  · rename_i hlast
    -- the mapping is there already
    rw [latest, Option.or_none] at hlast
    exact ⟨_, _, rfl, hlast, hbounds, hbehind _⟩
  · refine ⟨mappingsFrom 0 none before ++ [⟨chunkSize before, o⟩], _, (List.append_cons _ _ _),
      List.getLast?_concat, fun m hm => ?_, hbehind _⟩
    rcases List.mem_append.mp hm with hm | hm
    · exact hbounds m hm
    · obtain rfl := List.mem_singleton.mp hm
      exact Nat.le_refl _

/-- A mark is recorded as a mapping. -/
theorem mem_ofChunks (before after : List Chunk) (o : Nat) (t : String) :
    (⟨chunkSize before, o⟩ : Mapping) ∈ (ofChunks (before ++ .mark o :: .text t :: after)).mappings := by
  obtain ⟨first, behind, hmappings, hlast, _, _⟩ := ofChunks_around before after o t
  rw [hmappings]
  exact List.mem_append_left _ (List.mem_of_getLast? hlast)

/-- **A text behind a mark stems from the mark's offset**, wherever in the text one looks. -/
theorem ofChunks_origin? (before after : List Chunk) (o : Nat) (t : String) {place : Nat}
    (hle : chunkSize before ≤ place) (hlt : place < chunkSize before + t.utf8ByteSize) :
    (ofChunks (before ++ .mark o :: .text t :: after)).origin? place = some o := by
  obtain ⟨first, behind, hmappings, hlast, hfirst, hbehind⟩ := ofChunks_around before after o t
  have htake : (first ++ behind).takeWhile (fun m => m.generated ≤ place) = first := by
    rw [List.takeWhile_append_of_pos fun m hm => decide_eq_true (Nat.le_trans (hfirst m hm) hle)]
    have hnone : behind.takeWhile (fun m => m.generated ≤ place) = [] := by
      cases behind with
      | nil => rfl
      | cons m ms =>
          have hlater := hbehind m List.mem_cons_self
          exact List.takeWhile_cons_of_neg (by simp; omega)
    rw [hnone, List.append_nil]
  rw [origin?, hmappings, htake, hlast]
  rfl

/-! ## Encoding -/

/-- Whether a character separates the segments of encoded mappings. -/
def isSeparator (c : Char) : Bool :=
  c == ',' || c == ';'

/-- What stands between the separators, where anything does. -/
def segmentTexts (encoded : List Char) : List (List Char) :=
  (encoded.splitOnP isSeparator).filter fun part => !part.isEmpty

theorem segmentTexts_nil : segmentTexts [] = [] :=
  rfl

theorem segmentTexts_separator {c : Char} (h : isSeparator c = true) (cs : List Char) :
    segmentTexts (c :: cs) = segmentTexts cs := by
  rw [segmentTexts, List.splitOnP_cons_eq_if_modifyHead, if_pos h]
  rfl

theorem segmentTexts_separators {cs : List Char} (h : ∀ c ∈ cs, isSeparator c = true) (rest : List Char) :
    segmentTexts (cs ++ rest) = segmentTexts rest := by
  induction cs with
  | nil => rfl
  | cons c cs ih =>
      rw [List.cons_append, segmentTexts_separator (h c List.mem_cons_self),
        ih fun d hd => h d (List.mem_cons_of_mem c hd)]

/-- A text without separators is a segment of its own, if a separator follows it or nothing does. -/
theorem segmentTexts_body {body rest : List Char} (hne : body ≠ []) (h : ∀ c ∈ body, isSeparator c = false)
    (hrest : ∀ c ∈ rest.head?, isSeparator c = true) :
    segmentTexts (body ++ rest) = body :: segmentTexts rest := by
  have hkept : ([body] : List (List Char)).filter (fun part => !part.isEmpty) = [body] := by
    simp [hne]
  cases rest with
  | nil => rw [List.append_nil, segmentTexts, List.splitOnP_eq_singleton h, hkept, segmentTexts_nil]
  | cons c rest =>
      have hc : isSeparator c = true := hrest c rfl
      rw [segmentTexts_separator hc, segmentTexts, List.splitOnP_append_cons _ _ hc, List.splitOnP_eq_singleton h,
        List.filter_append, hkept]
      rfl

/-- Numbers are written without separators. -/
theorem base64Digit_plain (n : Nat) : isSeparator (base64Digit n) = false := by
  have hdigits : base64Digits.all (fun c => !isSeparator c) = true := by decide
  unfold base64Digit
  rw [List.getD_eq_getElem?_getD]
  cases h : base64Digits[n]? with
  | none => rfl
  | some c => simpa using List.all_eq_true.mp hdigits c (List.mem_of_getElem? h)

theorem variableLength_plain (n : Nat) : variableLength n ≠ [] ∧ ∀ c ∈ variableLength n, isSeparator c = false := by
  fun_induction variableLength n with
  | case1 n hlt => exact ⟨List.cons_ne_nil _ _, fun c hc => List.mem_singleton.mp hc ▸ base64Digit_plain n⟩
  | case2 n hge ih =>
      refine ⟨List.cons_ne_nil _ _, fun c hc => ?_⟩
      rcases List.mem_cons.mp hc with rfl | hc
      · exact base64Digit_plain _
      · exact ih.2 c hc

/-- A segment is written behind separators, if it is not the first one, and holds none. -/
theorem segment_shape (base : SegmentBase) (place origin : Position) :
    ∃ separators body, segment base place origin = separators ++ body ∧ (∀ c ∈ separators, isSeparator c = true) ∧
      (base.started = true → separators ≠ []) ∧ body ≠ [] ∧ ∀ c ∈ body, isSeparator c = false := by
  have hnumber : ∀ z : Int, signedNumber z ≠ [] ∧ ∀ c ∈ signedNumber z, isSeparator c = false :=
    fun z => variableLength_plain _
  let column := if base.line < place.line then 0 else base.column
  refine ⟨List.replicate (place.line - base.line) ';' ++
      (if base.started && !decide (base.line < place.line) then [','] else []),
    signedNumber (place.column16 - column : Int) ++ signedNumber 0 ++
      signedNumber (origin.line - base.originLine : Int) ++
      signedNumber (origin.column16 - base.originColumn : Int), ?_, ?_, ?_, ?_, ?_⟩
  · simp only [segment, column, List.append_assoc]
  · intro c hc
    rcases List.mem_append.mp hc with hc | hc
    · rw [List.eq_of_mem_replicate hc]
      rfl
    · split at hc
      · rw [List.mem_singleton.mp hc]
        rfl
      · exact absurd hc List.not_mem_nil
  · intro hstarted
    by_cases hline : base.line < place.line
    · -- at least one line ends in between
      have hsemicolons : List.replicate (place.line - base.line) ';' ≠ [] := by simp; omega
      simp [hsemicolons]
    · simp [hstarted, hline]
  · simp [(hnumber _).1]
  · intro c hc
    simp only [List.mem_append] at hc
    rcases hc with ((hc | hc) | hc) | hc
    all_goals exact (hnumber _).2 c hc

theorem segments_head (program document : LineIndex) {base : SegmentBase} (hstarted : base.started = true)
    (ms : List Mapping) : ∀ c ∈ (segments program document base ms).head?, isSeparator c = true := by
  fun_induction segments program document base ms with
  | case1 => simp
  | case2 base m ms place origin hplace horigin ih =>
      obtain ⟨separators, body, hsegment, hseparators, hne, -, -⟩ := segment_shape base place origin
      obtain ⟨c, cs, rfl⟩ := List.exists_cons_of_ne_nil (hne hstarted)
      intro d hd
      rw [hsegment] at hd
      obtain rfl : c = d := by simpa using hd
      exact hseparators c List.mem_cons_self
  | case3 base m ms hnone ih => exact ih hstarted

/-- Mappings between character boundaries have one segment each. -/
theorem segmentTexts_segments {program document : LineIndex} {ms : List Mapping} (base : SegmentBase)
    (hms : ∀ m ∈ ms, (program.position? m.generated).isSome ∧ (document.position? m.origin).isSome) :
    (segmentTexts (segments program document base ms)).length = ms.length := by
  fun_induction segments program document base ms with
  | case1 => rfl
  | case2 base m ms place origin hplace horigin ih =>
      obtain ⟨separators, body, hsegment, hseparators, -, hbody, hplain⟩ := segment_shape base place origin
      rw [hsegment, List.append_assoc, segmentTexts_separators hseparators,
        segmentTexts_body hbody hplain (segments_head program document rfl ms), List.length_cons, List.length_cons,
        ih fun n hn => hms n (List.mem_cons_of_mem m hn)]
  | case3 base m ms hnone ih =>
      obtain ⟨hprogram, hdocument⟩ := hms m List.mem_cons_self
      obtain ⟨place, hplace⟩ := Option.isSome_iff_exists.mp hprogram
      obtain ⟨origin, horigin⟩ := Option.isSome_iff_exists.mp hdocument
      exact absurd horigin (hnone place origin hplace)

/-- **An encoded source map has one segment for each mapping**, if all of them lie between characters. -/
theorem segmentTexts_encode {map : SourceMap} {program document : String}
    (h : ∀ m ∈ map.mappings, IsBoundary program m.generated ∧ IsBoundary document m.origin) :
    (segmentTexts (map.encode program document).toList).length = map.mappings.length := by
  rw [encode, String.toList_ofList]
  refine segmentTexts_segments {} fun m hm => ?_
  exact ⟨(h m hm).1.position?, (h m hm).2.position?⟩

end SourceMap

end ComponentMarkup.Program
