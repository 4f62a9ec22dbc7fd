import ComponentMarkup.Text.Source

/-!
# Lines and positions

A text is cut into lines at every line end, a carriage return with the line feed after it counting as
one.  `lineSpans` gives the lines as stretches, `lineTexts` as texts.  `LineIndex` turns a byte offset
into a line and a column.
-/

namespace ComponentMarkup.Text

/-- The lines of the text that starts at place `here`, the current line having started at `start`. -/
def cutLines (start here : Nat) : List Char → List Span
  | [] => [⟨start, here⟩]
  | '\r' :: '\n' :: cs => ⟨start, here⟩ :: cutLines (here + 2) (here + 2) cs
  | c :: cs =>
    if isNewline c then ⟨start, here⟩ :: cutLines (here + 1) (here + 1) cs
    else cutLines start (here + 1) cs

/-- The lines of a stretch, without their line ends. -/
def lineSpans (src : Source) (s : Span) : List Span :=
  cutLines s.start s.start (src.slice s.start s.stop)

/-- Splits a text at its line ends: the first line, and the lines after it. -/
def breakLines : List Char → List Char × List (List Char)
  | [] => ([], [])
  | '\r' :: '\n' :: cs =>
    let (line, lines) := breakLines cs
    ([], line :: lines)
  | c :: cs =>
    let (line, lines) := breakLines cs
    if isNewline c then ([], line :: lines) else (c :: line, lines)

/-- The lines of a text, without their line ends. -/
def lineTexts (cs : List Char) : List (List Char) :=
  let (line, lines) := breakLines cs
  line :: lines

/-- How many UTF-16 units a character takes. -/
def units16 (c : Char) : Nat :=
  if c.toNat < 0x10000 then 1 else 2

/-- Where a byte offset lies in a text.  All numbers start at zero. -/
structure Position where
  /-- The line. -/
  line : Nat
  /-- The characters before the offset on its line. -/
  column : Nat
  /-- The UTF-16 units before the offset on its line, in which source maps count. -/
  column16 : Nat
  deriving DecidableEq, Repr

/-- What is needed to turn byte offsets into positions. -/
structure LineIndex where
  /-- The text. -/
  source : Source
  /-- The byte offset of every place. -/
  offsets : Array Nat
  /-- The places at which lines start. -/
  starts : Array Nat

/-- Indexes the lines of a text. -/
def LineIndex.ofSource (src : Source) : LineIndex where
  source := src
  offsets := src.byteOffsets
  starts := ((lineSpans src src.whole).map Span.start).toArray

/-- The position of a byte offset, if the offset is a character boundary of the text. -/
def LineIndex.position? (index : LineIndex) (offset : Nat) : Option Position := do
  let place ← placeAt? index.offsets offset
  let line := countUpTo index.starts place - 1
  let start ← index.starts[line]?
  let head := index.source.slice start place
  return ⟨line, place - start, head.foldr (fun c n => units16 c + n) 0⟩

end ComponentMarkup.Text
