import ComponentMarkup.Markup.BlockStart
import ComponentMarkup.Markup.Inline
import ComponentMarkup.Text.Line

/-!
# Blocks

A document is a list of lines, and so is the content of every block that holds other blocks, with the
marks and the indentation of that block taken off.  A rule looks at a line and the lines after it and
either declines or returns a node and the lines it leaves.  The rules are tried in a fixed order; a line
that none of them claims starts a paragraph.

Between the nodes of a block lies white space, and the markers of quotations around it; `fill` turns it
into leaves, so that no character is lost.

Blocks inside blocks are read by `BlockEnv.nested`, which `blockNodes` ties to itself one level down.
-/

namespace ComponentMarkup.Markup

open ComponentMarkup.Text ComponentMarkup.Tree

/-- What the block rules need of their surroundings. -/
structure BlockEnv where
  /-- The whole text. -/
  source : Source
  /-- Reads inline content. -/
  inline : List Span → Mode → Limited (List Node)
  /-- Reads the blocks inside a block. -/
  nested : List Span → Limited (List Node)

/-- A rule for blocks: given a line and the lines after it, the node of the block and the lines that remain. -/
abbrev BlockRule := BlockEnv → Span → List Span → Option (Limited (Node × List Span))

/-! ## Filling gaps -/

/-- The leaves of a gap whose current stretch of white space began at `start`: quote markers, and white space
between them. -/
def gapLeaves (src : Source) (start place : Nat) : List Char → List Node
  | [] => if start < place then [leafOf src .space start place] else []
  | c :: cs =>
    if c == '>' then
      (if start < place then [leafOf src .space start place] else []) ++
        leafOf src .quoteMarker place (place + 1) :: gapLeaves src (place + 1) (place + 1) cs
    else gapLeaves src start (place + 1) cs

/-- The leaves between two places, if the second is behind the first. -/
def gap (src : Source) (start stop : Nat) : List Node :=
  if start < stop then gapLeaves src start start (src.slice start stop) else []

/-- Nodes with the gaps before, between and after them filled, from place `cursor` to place `stop`. -/
def fill (src : Source) (cursor stop : Nat) : List Node → List Node
  | [] => gap src cursor stop
  | node :: nodes =>
    gap src cursor node.start ++ node :: fill src (max cursor node.stop) stop nodes

/-- A node over the stretch from `start` to `stop`, made of the given nodes and the gaps between them. -/
def filled (src : Source) (kind : MarkupKind) (start stop : Nat) (nodes : List Node) : Node :=
  .markup kind (fill src start stop nodes)

/-- A node from `start` to the end of the last of the given nodes, with the gaps between them filled. -/
def enclosing (src : Source) (kind : MarkupKind) (start : Nat) (nodes : List Node) : Node :=
  filled src kind start ((nodes.getLast?.map Node.stop).getD start) nodes

/-! ## Lines that belong together -/

/-- The lines from the start that are blank or satisfy the test, without blank ones at the end, and the lines
after them. -/
def takeDeeper (src : Source) (isDeep : Span → Bool) : List Span → List Span × List Span
  | [] => ([], [])
  | line :: lines =>
    if isBlankLine src line then
      match takeDeeper src isDeep lines with
      | ([], _) => ([], line :: lines)
      | (taken, rest) => (line :: taken, rest)
    else if isDeep line then
      let (taken, rest) := takeDeeper src isDeep lines
      (line :: taken, rest)
    else ([], line :: lines)

/-- The lines that are indented by at least `columns`, and the lines after them. -/
def takeIndented (src : Source) (columns : Nat) (lines : List Span) : List Span × List Span :=
  takeDeeper src (fun line => columns ≤ indentOf src line) lines

/-- How much further the body of a block is indented than its first line. -/
def bodyIndent : Nat := 2

/-- The lines of a list item after its first: those indented to the item's column, stripped of that
indentation, and lines that merely go on with the text of the line before, as long as `lazy` holds. -/
def itemLines (src : Source) (column : Nat) (lazy : Bool) : List Span → List Span × List Span
  | [] => ([], [])
  | line :: lines =>
    if isBlankLine src line then
      match itemLines src column false lines with
      | ([], _) => ([], line :: lines)
      | (taken, rest) => (strip src column line :: taken, rest)
    else if column ≤ indentOf src line then
      let (taken, rest) := itemLines src column true lines
      (strip src column line :: taken, rest)
    else if lazy && !startsBlock src line then
      let (taken, rest) := itemLines src column true lines
      (⟨contentStart src line, line.stop⟩ :: taken, rest)
    else ([], line :: lines)

/-! ## Rules -/

/-- Comments on lines of their own. -/
def commentBlock : BlockRule := fun env line later =>
  let src := env.source
  let isComment := fun l => startsComment (unindented src l)
  if isComment line then
    let lines := (line :: later).takeWhile isComment
    let nodes := lines.map fun l => leafOf src .lineComment (contentStart src l) l.stop
    some (pure (enclosing src .commentBlock (contentStart src line) nodes,
      (line :: later).dropWhile isComment))
  else none

/-- The lines of a fenced block, its closing line, and the lines after it. -/
def splitFence (closes : Span → Bool) (lines : List Span) : List Span × Option Span × List Span :=
  let body := lines.takeWhile fun l => !closes l
  let rest := lines.drop body.length
  (body, rest.head?, rest.tail)

/-- A leaf over all lines of a body, from the start of the first to the end of the last. -/
def bodyLeaf (src : Source) (kind : MarkupKind) (body : List Span) : List Node :=
  match body.head?, body.getLast? with
  | some first, some last => [leafOf src kind first.start last.stop]
  | _, _ => []

/-- Script, on one line or fenced. -/
def scriptBlock : BlockRule := fun env line later =>
  let src := env.source
  let t := unindented src line
  let start := contentStart src line
  if t.head? != some '%' then none
  else if t.take 3 == ['%', '%', '%'] then
    let (body, close, rest) := splitFence (fun l => isScriptFence (unindented src l)) later
    let closing := close.toList.map fun l => leafOf src .scriptFence (contentStart src l) l.stop
    let nodes := leafOf src .scriptFence start line.stop :: bodyLeaf src .scriptBody body ++ closing
    some (pure (enclosing src .script start nodes, rest))
  else
    let body := if start + 1 < line.stop then [leafOf src .scriptBody (start + 1) line.stop] else []
    some (pure (enclosing src .script start (leafOf src .scriptMark start (start + 1) :: body), later))

/-- An attribute, with its value on the same line or on the indented lines after it. -/
def attributeBlock : BlockRule := fun env line later => do
  let src := env.source
  let width ← attributeKey? (unindented src line)
  let start := contentStart src line
  let colon := start + 2 + width
  let head :=
    [leafOf src .attributeMark start (start + 1), leafOf src .attributeKey (start + 2) colon,
      leafOf src .colon colon (colon + 1)]
  let after := src.slice (colon + 1) line.stop
  if isAllWhite after then
    let columns := indentOf src line + bodyIndent
    let (taken, rest) := takeIndented src columns later
    let value :=
      match taken.find? fun l => !isBlankLine src l, taken.getLast? with
      | some first, some last => [leafOf src .attributeValue (first.start + columns) last.stop]
      | _, _ => []
    some (pure (enclosing src .attributeLine start (head ++ value), rest))
  else
    let value := leafOf src .attributeValue (colon + 1 + runLength isWhitespace after) line.stop
    some (pure (enclosing src .attributeLine start (head ++ [value]), later))

/-- The lines after the first one on which a place lies. -/
def linesAfter? (place : Nat) : List Span → Option (List Span)
  | [] => none
  | line :: lines =>
    if line.start ≤ place && place ≤ line.stop then some lines else linesAfter? place lines

/-- The indented body of a component, and the lines after it. -/
def componentBody (env : BlockEnv) (line : Span) (later : List Span) :
    Limited (List Node × List Span) := do
  let src := env.source
  let columns := indentOf src line + bodyIndent
  let (taken, rest) := takeIndented src columns later
  match taken.getLast? with
  | none => return ([], later)
  | some last =>
    let nodes ← env.nested (taken.map (strip src columns))
    match nodes.head? with
    | none => return ([], rest)
    | some first => return ([filled src .blockBody first.start last.stop nodes], rest)

/-- The content of a component on the line of its colon. -/
def componentLine (env : BlockEnv) (start stop : Nat) : Limited (List Node) := do
  let content := trimmed env.source start stop
  if content.start < content.stop then
    let nodes ← env.inline [content] .full
    return [.markup .lineContent nodes]
  else return []

/-- A component on lines of its own. -/
def componentBlock : BlockRule := fun env line later => do
  let src := env.source
  let start := contentStart src line
  if (unindented src line).head? != some '@' then none
  else
    let (head, form) ← componentHeader? src start line.stop
    let finish := fun (nodes : List Node) =>
      enclosing src .blockComponent start (head.nodes src ++ nodes)
    match form with
    | .verbatim close =>
      let rest ← linesAfter? (close + 2) (line :: later)
      some (pure (finish [verbatimNode src head.stop close], rest))
    | .braced close =>
      let rest ← linesAfter? (close + 1) (line :: later)
      let brace := head.stop
      let hole := if brace + 1 < close then [leafOf src .markupHole (brace + 1) close] else []
      some (pure (finish (leafOf src .leftBrace brace (brace + 1) :: hole ++
        [leafOf src .rightBrace close (close + 1)]), rest))
    | .composite colon =>
      some do
        let content ← componentLine env (colon + 1) line.stop
        let (body, rest) ← componentBody env line later
        return (finish (leafOf src .colon colon (colon + 1) :: content ++ body), rest)
    | .bare => some (pure (finish [], later))

/-- A display formula. -/
def mathBlock : BlockRule := fun env line later =>
  let src := env.source
  let isFence := fun l => isMathFence (unindented src l)
  let fence := fun l => leafOf src .mathDelim (contentStart src l) (contentStart src l + 2)
  if !isFence line then none
  else
    some do
      let (body, close, rest) := splitFence isFence later
      let nodes ← if body.isEmpty then pure [] else env.inline body .template
      let content := if nodes.isEmpty then [] else [Node.markup .mathContent nodes]
      return (enclosing src .mathBlock (contentStart src line)
        (fence line :: content ++ close.toList.map fence), rest)

/-- Code between fences. -/
def codeBlock : BlockRule := fun env line later => do
  let src := env.source
  let (mark, width) ← codeFence? (unindented src line)
  let start := contentStart src line
  let info := trimmed src (start + width) line.stop
  let infoLeaf :=
    if info.start < info.stop then [leafOf src .codeInfo info.start info.stop] else []
  let (body, close, rest) := splitFence (fun l => closesFence mark width (unindented src l)) later
  let closing := close.toList.map fun l =>
    leafOf src .codeFence (contentStart src l)
      (contentStart src l + (trimEnd (unindented src l)).length)
  let nodes := leafOf src .codeFence start (start + width) :: infoLeaf ++
    bodyLeaf src .codeText body ++ closing
  some (pure (enclosing src .fencedCode start nodes, rest))

/-- A heading. -/
def headingBlock : BlockRule := fun env line later => do
  let src := env.source
  let level ← headingLevel? (unindented src line)
  let start := contentStart src line
  let content := trimmed src (start + level) line.stop
  some do
    let nodes ←
      if content.start < content.stop then env.inline [content] .full else pure []
    return (filled src .heading start line.stop
      (leafOf src .headingMarker start (start + level) :: nodes), later)

/-- A quoted line without its marker and one blank after it. -/
def unquote (src : Source) (line : Span) : Span :=
  let start := contentStart src line + 1
  if (src.slice start line.stop).head?.any isBlank then ⟨start + 1, line.stop⟩ else ⟨start, line.stop⟩

/-- A quotation. -/
def quoteBlock : BlockRule := fun env line later =>
  let src := env.source
  let isQuoted := fun l => (unindented src l).head? == some '>'
  if !isQuoted line then none
  else
    let lines := (line :: later).takeWhile isQuoted
    let stop := (lines.getLast?.map Span.stop).getD line.stop
    some do
      let nodes ← env.nested (lines.map (unquote src))
      return (filled src .blockquote (contentStart src line) stop nodes,
        (line :: later).dropWhile isQuoted)

/-- Whether a text starts with a task box, followed by a blank or nothing. -/
def hasTaskBox (cs : List Char) : Bool :=
  (cs.take 3 == ['[', ' ', ']'] || cs.take 3 == ['[', 'x', ']'] || cs.take 3 == ['[', 'X', ']']) &&
    endsOrBlank (cs.drop 3)

/-- An item of a list, and the lines after it. -/
def listItem (env : BlockEnv) (line : Span) (marker : ListMarker) (later : List Span) :
    Limited (Node × List Span) := do
  let src := env.source
  let start := contentStart src line
  let after := start + marker.width
  let blanks := runLength isBlank (src.slice after line.stop)
  let blanks := if 4 < blanks || after + blanks == line.stop then min blanks 1 else blanks
  let column := indentOf src line + marker.width + max blanks 1
  let content := min (after + blanks) line.stop
  let hasTask := hasTaskBox (src.slice content line.stop)
  let task := if hasTask then [leafOf src .taskMarker content (content + 3)] else []
  let content := if hasTask then min (content + 4) line.stop else content
  let (taken, rest) := itemLines src column true later
  let lines := ⟨content, line.stop⟩ :: taken
  let blocks ← env.nested lines
  let nodes := leafOf src .listMarker start after :: task ++ blocks
  let last := (nodes.getLast?.map Node.stop).getD line.stop
  let stop := max last ((lines.getLast?.map Span.stop).getD line.stop)
  return (filled src .listItem start stop nodes, rest)

/-- The items of a list whose items are indented by `indent` and marked like `first`. -/
def listItems (env : BlockEnv) (indent : Nat) (first : ListMarker) :
    Nat → Span → ListMarker → List Span → Limited (List Node × List Span)
  | 0, _, _, later => pure ([], later)
  | fuel + 1, line, marker, later => do
    let src := env.source
    let (item, rest) ← listItem env line marker later
    match rest.dropWhile (isBlankLine src) with
    | [] => return ([item], rest)
    | next :: lines =>
      match ListMarker.read? (unindented src next) with
      | some marker' =>
        if indentOf src next == indent && marker'.continues first then
          let (items, rest) ← listItems env indent first fuel next marker' lines
          return (item :: items, rest)
        else return ([item], rest)
      | none => return ([item], rest)

/-- A list. -/
def listBlock : BlockRule := fun env line later => do
  let src := env.source
  let marker ← ListMarker.read? (unindented src line)
  some do
    let (items, rest) ←
      listItems env (indentOf src line) marker (later.length + 1) line marker later
    return (enclosing src marker.listKind ((items.head?.map Node.start).getD 0) items, rest)

/-- The cell of a row over a stretch between pipes. -/
def tableCell (env : BlockEnv) (cell : Span) : Limited Node := do
  let content := trimmed env.source cell.start cell.stop
  if content.start < content.stop then
    let nodes ← env.inline [content] .full
    return .markup .tableCell nodes
  else return .empty (.markup .tableCell) (min content.start cell.stop)

/-- The cells of a row, in order. -/
def tableCells (env : BlockEnv) : List Span → Limited (List Node)
  | [] => pure []
  | cell :: cells => do
    let node ← tableCell env cell
    let nodes ← tableCells env cells
    return node :: nodes

/-- A row of a table: its pipes and cells by their places. -/
def tableRow (env : BlockEnv) (kind : MarkupKind) (line : Span) : Limited Node := do
  let src := env.source
  let pipes := (pipePlaces src line.start line.stop).map fun p => leafOf src .tablePipe p (p + 1)
  let cells ← tableCells env (cellSpans src line)
  let nodes := (pipes ++ cells).mergeSort fun a b =>
    a.start < b.start || (a.start == b.start && a.stop ≤ b.stop)
  return filled src kind (contentStart src line) line.stop nodes

/-- Several rows of a table. -/
def tableRows (env : BlockEnv) : List Span → Limited (List Node)
  | [] => pure []
  | line :: lines => do
    let row ← tableRow env .tableRow line
    let rows ← tableRows env lines
    return row :: rows

/-- A table: a header row, a delimiter row with as many cells, and further rows. -/
def tableBlock : BlockRule := fun env line later =>
  let src := env.source
  let hasPipe := fun l => (unindented src l).contains '|'
  match later with
  | [] => none
  | delimiter :: rest => do
    if !hasPipe line then none
    else
      let count ← delimiterCount? (unindented src delimiter)
      if (cellSpans src line).length != count then none
      else
        let isRow := fun l => !isBlankLine src l && hasPipe l && !startsBlock src l
        let body := rest.takeWhile isRow
        let start := contentStart src delimiter
        let delimiterLeaf := leafOf src .tableDelimiter start
          (start + (trimEnd (unindented src delimiter)).length)
        let stop := (body.getLast?.map Span.stop).getD delimiter.stop
        some do
          let header ← tableRow env .tableHeader line
          let rows ← tableRows env body
          return (filled src .table (contentStart src line) stop (header :: delimiterLeaf :: rows),
            rest.drop body.length)

/-- A paragraph: lines up to a blank one or one that starts a block. -/
def paragraph (env : BlockEnv) (line : Span) (later : List Span) : Limited (Node × List Span) := do
  let src := env.source
  let goesOn := fun l => !isBlankLine src l && !startsBlock src l
  let body := later.takeWhile goesOn
  let segments := (line :: body).map fun l => ⟨contentStart src l, l.stop⟩
  let nodes ← env.inline segments .full
  return (.markup .paragraph nodes, later.drop body.length)

/-! ## Reading blocks -/

/-- The rules in the order in which they are tried. -/
def blockRules : List BlockRule :=
  [commentBlock, scriptBlock, attributeBlock, componentBlock, mathBlock, codeBlock, headingBlock,
    quoteBlock, listBlock, tableBlock]

/-- Reads the block that starts with a line. -/
def readBlock (env : BlockEnv) (line : Span) (later : List Span) : Limited (Node × List Span) :=
  (blockRules.findSome? fun rule => rule env line later).getD (paragraph env line later)

/-- Reads the blocks of a list of lines, skipping blank ones. -/
def readBlocks (env : BlockEnv) : Nat → List Span → Limited (List Node)
  | 0, _ => pure []
  | _ + 1, [] => pure []
  | fuel + 1, line :: later =>
    if isBlankLine env.source line then readBlocks env fuel later
    else do
      let (node, rest) ← readBlock env line later
      let nodes ← readBlocks env fuel rest
      return node :: nodes

/-- The blocks of a list of lines, of which `levels` may nest.  Past the limit the lines are text. -/
def blockNodes (src : Source) : (levels : Nat) → List Span → Limited (List Node)
  | 0, lines =>
    let start := (lines.head?.map Span.start).getD 0
    let stop := (lines.getLast?.map Span.stop).getD 0
    ⟨if start < stop then [leafOf src .text start stop] else [], some start⟩
  | levels + 1, lines =>
    let env : BlockEnv :=
      { source := src, inline := inlineNodes src (levels - 1), nested := blockNodes src levels }
    readBlocks env lines.length lines

/-- Reads a stretch of a text as a document. -/
def readDocument (src : Source) (s : Span) : Limited Node := do
  let nodes ← blockNodes src (maxDepth + 1) (lineSpans src s)
  return .branchAt (.markup .document) s.start (fill src s.start s.stop nodes)

/-- Reads a stretch of a text as inline content. -/
def readInlineContent (src : Source) (s : Span) : Limited Node := do
  let nodes ← inlineNodes src maxDepth (lineSpans src s) .full
  return .branchAt (.markup .inline) s.start nodes

end ComponentMarkup.Markup
