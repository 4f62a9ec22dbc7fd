import ComponentMarkup.Markup.Head

/-!
# How blocks start

Tests on single lines: whether a line is blank, how far it is indented, and whether it starts a block of
some kind.  A line is a stretch of the text without its line end, and without what belongs to the blocks
around it.
-/

namespace ComponentMarkup.Markup

open ComponentMarkup.Text ComponentMarkup.Tree

/-! ## Lines -/

/-- The characters of a line. -/
def lineChars (src : Source) (line : Span) : List Char :=
  src.slice line.start line.stop

/-- Whether a line holds nothing but white space. -/
def isBlankLine (src : Source) (line : Span) : Bool :=
  isAllWhite (lineChars src line)

/-- How far a line is indented. -/
def indentOf (src : Source) (line : Span) : Nat :=
  runLength isBlank (lineChars src line)

/-- Where a line starts behind its indentation. -/
def contentStart (src : Source) (line : Span) : Nat :=
  line.start + indentOf src line

/-- The characters of a line behind its indentation. -/
def unindented (src : Source) (line : Span) : List Char :=
  (lineChars src line).dropWhile isBlank

/-- The line with up to `columns` columns of indentation removed. -/
def strip (src : Source) (columns : Nat) (line : Span) : Span :=
  ⟨line.start + min (indentOf src line) columns, line.stop⟩

/-- The stretch between two places without the white space at its ends; empty or backwards if there is
nothing else. -/
def trimmed (src : Source) (start stop : Nat) : Span :=
  let cs := src.slice start stop
  ⟨start + runLength isWhitespace cs, start + (trimEnd cs).length⟩

/-- Whether nothing but white space stands between a place and the end of its line. -/
def restIsBlank (src : Source) (place : Nat) : Bool :=
  isAllWhite ((src.after place).takeWhile fun c => !isNewline c)

/-! ## Markers -/

/-- Whether a text is empty or starts with horizontal white space. -/
def endsOrBlank (cs : List Char) : Bool :=
  cs.head?.all isBlank

/-- Whether a line starts a comment. -/
def startsComment (cs : List Char) : Bool :=
  cs.take 2 == ['/', '/']

/-- The length of the key of an attribute line. -/
def attributeKey? : List Char → Option Nat
  | '|' :: ' ' :: cs => do
    let n ← wordLength? cs
    match cs.drop n with
    | ':' :: after => if endsOrBlank after then some n else none
    | _ => none
  | _ => none

/-- Whether a line consists of the delimiter of display formulas. -/
def isMathFence (cs : List Char) : Bool :=
  trimEnd cs == ['$', '$']

/-- Whether a line consists of the delimiter of script blocks. -/
def isScriptFence (cs : List Char) : Bool :=
  trimEnd cs == ['%', '%', '%']

/-- The mark and the width of a code fence: at least three backticks without another on the line, or at
least three tildes. -/
def codeFence? : List Char → Option (Char × Nat)
  | [] => none
  | mark :: cs =>
    let width := runLength (· == mark) (mark :: cs)
    if mark == '\x60' then
      if 3 ≤ width && !((mark :: cs).drop width).contains mark then some (mark, width) else none
    else if mark == '~' then if 3 ≤ width then some (mark, width) else none
    else none

/-- Whether a line closes a code fence: it holds only the mark, at least as often. -/
def closesFence (mark : Char) (width : Nat) (cs : List Char) : Bool :=
  let t := trimEnd cs
  width ≤ t.length && t.all (· == mark)

/-- The level of a heading. -/
def headingLevel? (cs : List Char) : Option Nat :=
  let level := runLength (· == '#') cs
  if 1 ≤ level && level ≤ 6 && endsOrBlank (cs.drop level) then some level else none

/-- The marker of a list item. -/
structure ListMarker where
  /-- The bullet, or the character after the number. -/
  delimiter : Char
  /-- Whether the item is numbered. -/
  ordered : Bool
  /-- How many characters the marker has. -/
  width : Nat
  deriving DecidableEq, Repr

namespace ListMarker

/-- Whether two markers belong to one list. -/
def continues (a b : ListMarker) : Bool :=
  a.delimiter == b.delimiter && a.ordered == b.ordered

/-- The kind of list that a marker starts. -/
def listKind (m : ListMarker) : MarkupKind :=
  if m.ordered then .orderedList else .bulletList

/-- The marker at the start of a line. -/
def read? (cs : List Char) : Option ListMarker :=
  match cs with
  | [] => none
  | c :: rest =>
    if c == '-' || c == '*' || c == '+' then
      if endsOrBlank rest then some ⟨c, false, 1⟩ else none
    else
      let digits := runLength isDigit cs
      if 1 ≤ digits && digits ≤ 9 then
        match cs.drop digits with
        | d :: after =>
          if (d == '.' || d == ')') && endsOrBlank after then some ⟨d, true, digits + 1⟩ else none
        | [] => none
      else none

end ListMarker

/-! ## Tables -/

/-- Splits a text at every occurrence of a character. -/
def splitAtChar (mark : Char) : List Char → List (List Char)
  | [] => [[]]
  | c :: cs =>
    match splitAtChar mark cs with
    | [] => [[c]]
    | part :: parts => if c == mark then [] :: part :: parts else (c :: part) :: parts

/-- A text without one leading occurrence of a character. -/
def dropLeading (mark : Char) : List Char → List Char
  | c :: cs => if c == mark then cs else c :: cs
  | [] => []

/-- A text without one trailing occurrence of a character. -/
def dropTrailing (mark : Char) (cs : List Char) : List Char :=
  (dropLeading mark cs.reverse).reverse

/-- Whether a cell belongs to a delimiter row: hyphens, with a colon at either end. -/
def isDelimiterCell (cell : List Char) : Bool :=
  let inner := dropTrailing ':' (dropLeading ':' (trim cell))
  !inner.isEmpty && inner.all (· == '-')

/-- The number of cells of a delimiter row. -/
def delimiterCount? (cs : List Char) : Option Nat :=
  let cells := splitAtChar '|' (dropTrailing '|' (dropLeading '|' (trimEnd cs)))
  if cells.all isDelimiterCell then some cells.length else none

/-- The places of the pipes that separate cells, those after a backslash left out. -/
def pipePlaces (src : Source) (start stop : Nat) : List Nat :=
  ((src.slice start stop).zipIdx start).filterMap fun (c, place) =>
    if c == '|' && src.before? place != some '\\' then some place else none

/-- Cuts a stretch at the given places. -/
def cutAt (start stop : Nat) : List Nat → List Span
  | [] => [⟨start, stop⟩]
  | place :: places => ⟨start, place⟩ :: cutAt (place + 1) stop places

/-- The cells of a row, between its pipes; a pipe at either end of the row bounds no cell outside it. -/
def cellSpans (src : Source) (line : Span) : List Span :=
  let start := contentStart src line
  let stop := start + (trimEnd (unindented src line)).length
  let pipes := pipePlaces src start stop
  let cells := cutAt start stop pipes
  let cells := if pipes.head? == some start then cells.tail else cells
  if pipes.getLast?.any fun pipe => pipe + 1 == stop then cells.dropLast else cells

/-! ## Components -/

/-- How a block component continues after its head. -/
inductive ComponentForm where
  /-- A verbatim body that ends with the delimiter at the given place. -/
  | verbatim (close : Nat)
  /-- A braced body that ends with the brace at the given place. -/
  | braced (close : Nat)
  /-- A colon at the given place, then content on the line and indented lines. -/
  | composite (colon : Nat)
  /-- Nothing. -/
  | bare
  deriving DecidableEq, Repr

/-- Reads the head of a block component at `start` and how it continues, the line ending at `stop`.  A body
may end on a later line of the text, but nothing may follow it there. -/
def componentHeader? (src : Source) (start stop : Nat) : Option (Head × ComponentForm) := do
  let head ← Head.read? src start 1 stop
  match src.slice head.stop stop with
  | '{' :: '|' :: _ =>
    let n ← verbatimLength? (src.after (head.stop + 2))
    let close := head.stop + 2 + n
    if restIsBlank src (close + 2) then some (head, .verbatim close) else none
  | '{' :: _ =>
    let n ← closingBrace? 0 (src.after (head.stop + 1))
    let close := head.stop + 1 + n
    if restIsBlank src (close + 1) then some (head, .braced close) else none
  | rest =>
    if head.name.isNone then none
    else
      match rest with
      | ':' :: after => if endsOrBlank after then some (head, .composite head.stop) else none
      | _ => if isAllWhite rest then some (head, .bare) else none

/-- Whether a line starts a block other than a table or a paragraph, and so ends a paragraph. -/
def startsBlock (src : Source) (line : Span) : Bool :=
  let t := unindented src line
  startsComment t || t.head? == some '%' || (attributeKey? t).isSome ||
    (t.head? == some '@' && (componentHeader? src (contentStart src line) line.stop).isSome) ||
    isMathFence t || (codeFence? t).isSome || (headingLevel? t).isSome || t.head? == some '>' ||
    (ListMarker.read? t).isSome

end ComponentMarkup.Markup
