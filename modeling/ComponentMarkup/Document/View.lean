import ComponentMarkup.Text.Numeral
import ComponentMarkup.Tree.Node

/-!
# What nodes mean

A node keeps marks, white space and all other text of the document; a view of it tells what it means: the
level of a heading, the cells of a table row.  Views never fail on odd trees: parts that are missing are
absent or empty.  `view?` gives the view of a node by its kind.
-/

namespace ComponentMarkup.Document

open ComponentMarkup.Text ComponentMarkup.Tree

/-- How a command names its target. -/
inductive CommandName where
  /-- By an identifier. -/
  | ident (text : String)
  /-- By its place among the enclosing arguments, counted from one. -/
  | positional (number : Nat)
  /-- By an expression in parentheses, which may be left out. -/
  | dynamic (expr : Option Node)
  /-- Not at all. -/
  | anonymous

/-- A component, an interpolation or a reference. -/
structure Command where
  /-- Which of them it is. -/
  kind : MarkupKind
  /-- Where it stands. -/
  span : Span
  /-- How it names its target. -/
  name : CommandName
  /-- What stands in its attribute list, if anything does. -/
  properties : Option Node
  /-- Its contents in braces. -/
  contentBlocks : List Node
  /-- Its content after a colon. -/
  lineContent : Option Node
  /-- The text of its verbatim body. -/
  verbatim : Option String
  /-- Its body of several lines in braces. -/
  hole : Option Node
  /-- Its indented body. -/
  body : Option Node

/-- How the cells of a column are aligned. -/
inductive Align where
  | left
  | center
  | right
  deriving DecidableEq, Repr

/-- The name of an alignment. -/
def Align.name : Align → String
  | .left => "left"
  | .center => "center"
  | .right => "right"

/-- What a node means. -/
inductive View where
  /-- A sequence of blocks or of inline nodes. -/
  | sequence (nodes : List Node)
  /-- A command. -/
  | command (command : Command)
  /-- A content of a command in braces; an incomplete one lacks the closing brace. -/
  | contentBlock (nodes : List Node) (incomplete : Bool)
  /-- An attribute line. -/
  | attributeLine (key : String) (value : Option Node)
  /-- A heading. -/
  | heading (level : Nat) (nodes : List Node)
  /-- A list; the first number is only there if the list is numbered. -/
  | list (ordered : Bool) (first : Option Nat) (items : List Node)
  /-- An item of a list; a task is done or not. -/
  | listItem (task : Option Bool) (blocks : List Node)
  /-- A quotation. -/
  | quotation (blocks : List Node)
  /-- A block of code. -/
  | fencedCode (language : Option String) (code : String)
  /-- A link or an image. -/
  | link (image : Bool) (url : String) (nodes : List Node)
  /-- A table. -/
  | table (header : Option Node) (rows : List Node) (alignments : List (Option Align))
  /-- A row of a table. -/
  | tableRow (cells : List Node)
  /-- A script; an empty one has no body. -/
  | script (body : Option Node)
  /-- A formula, in a line or on its own. -/
  | math (display : Bool) (nodes : List Node)
  /-- Content between two marks. -/
  | delimited (nodes : List Node)

/-! ## Parts of nodes -/

/-- The children of a node that carry meaning. -/
def significant (n : Node) : List Node :=
  n.children.filter fun child => !child.kind.isTrivia && !child.isMarkup .quoteMarker

/-- The children of a node that are of none of the given kinds. -/
def without (kinds : List MarkupKind) (n : Node) : List Node :=
  n.children.filter fun child => !kinds.any child.isMarkup

/-- The text of the first child of a kind, or none. -/
def childText (n : Node) (kind : MarkupKind) : String :=
  ((n.child? kind).map Node.text).getD ""

/-- The only paragraph of a sequence, if it is the only block besides attributes. -/
def soleParagraph? (nodes : List Node) : Option Node :=
  match nodes.filter fun n => !n.isMarkup .attributeLine with
  | [n] => if n.isMarkup .paragraph then some n else none
  | _ => none

/-- How a command names its target. -/
def commandName (n : Node) : CommandName :=
  match n.child? .commandName with
  | some name =>
    match numeral? name.text.toList with
    | some number => .positional number
    | none => .ident name.text
  | none =>
    match n.child? .dynamicName with
    | some name => .dynamic (name.child? .nameExpr)
    | none => .anonymous

/-- The parts of a command of the given kind. -/
def commandOf (kind : MarkupKind) (n : Node) : Command where
  kind := kind
  span := n.span
  name := commandName n
  properties := (n.child? .attributeList).bind (·.child? .inlineAttributes)
  contentBlocks := n.children.filter (·.isMarkup .contentBlock)
  lineContent := n.child? .lineContent
  verbatim := (n.child? .verbatim).map fun body => childText body .verbatimText
  hole := n.child? .markupHole
  body := n.child? .blockBody

/-- The nodes between the braces of a content block. -/
def blockContents (n : Node) : List Node :=
  without [.leftBrace, .rightBrace] n

/-- The content of a heading, behind its marker. -/
def headingContents (n : Node) : List Node :=
  ((n.children.dropWhile fun child => !child.isMarkup .headingMarker).drop 1).filter
    fun child => !child.isMarkup .space

/-- The items of a list. -/
def listItems (n : Node) : List Node :=
  n.children.filter (·.isMarkup .listItem)

/-- The number of the first item of a list. -/
def firstNumber? (n : Node) : Option Nat := do
  let item ← (listItems n).head?
  let marker ← item.child? .listMarker
  numeral? (marker.text.toList.reverse.dropWhile fun c => c == '.' || c == ')').reverse

/-- The blocks of a list item. -/
def itemBlocks (n : Node) : List Node :=
  (significant n).filter fun child => !child.isMarkup .listMarker && !child.isMarkup .taskMarker

/-- What stands between the brackets of a link. -/
def linkContents (n : Node) : List Node :=
  (n.children.drop 1).takeWhile fun child => !child.isMarkup .linkMark

/-- Cuts a text at every pipe. -/
def splitPipes : List Char → List (List Char)
  | [] => [[]]
  | c :: cs =>
    let parts := splitPipes cs
    if c == '|' then [] :: parts else (c :: parts.headD []) :: parts.tail

/-- The alignment that a cell of a delimiter row gives its column. -/
def alignment? (cell : List Char) : Option Align :=
  match cell.head? == some ':', cell.getLast? == some ':' with
  | true, true => some .center
  | true, false => some .left
  | false, true => some .right
  | false, false => none

/-- The alignments of the columns of a table. -/
def alignments (n : Node) : List (Option Align) :=
  match n.child? .tableDelimiter with
  | none => []
  | some row =>
    (((splitPipes row.text.toList).map trim).filter fun cell => !cell.isEmpty).map alignment?

/-! ## Views -/

/-- What a node of a document kind means. -/
def viewOf? (kind : MarkupKind) (n : Node) : Option View :=
  match kind with
  | .document | .inline | .blockBody => some (.sequence (significant n))
  | .blockComponent | .inlineComponent | .interpolation | .reference =>
    some (.command (commandOf kind n))
  | .contentBlock => some (.contentBlock (blockContents n) (n.child? .rightBrace).isNone)
  | .attributeLine => some (.attributeLine (childText n .attributeKey) (n.child? .attributeValue))
  | .heading =>
    let level := ((n.child? .headingMarker).map fun marker => marker.span.size).getD 1
    some (.heading level (headingContents n))
  | .bulletList => some (.list false (firstNumber? n) (listItems n))
  | .orderedList => some (.list true (firstNumber? n) (listItems n))
  | .listItem =>
    some (.listItem ((n.child? .taskMarker).map fun box => box.text != "[ ]") (itemBlocks n))
  | .blockquote => some (.quotation (significant n))
  | .fencedCode => some (.fencedCode ((n.child? .codeInfo).map Node.text) (childText n .codeText))
  | .link => some (.link false (childText n .url) (linkContents n))
  | .image => some (.link true (childText n .url) (linkContents n))
  | .table =>
    some (.table (n.child? .tableHeader) (n.children.filter (·.isMarkup .tableRow)) (alignments n))
  | .tableHeader | .tableRow => some (.tableRow (n.children.filter (·.isMarkup .tableCell)))
  | .script => some (.script (n.child? .scriptBody))
  | .mathInline => some (.math false (((n.child? .mathContent).map Node.children).getD []))
  | .mathBlock => some (.math true (((n.child? .mathContent).map Node.children).getD []))
  | .emph | .strong | .strikethrough | .inlineCode =>
    some (.delimited (without [.emphMark, .codeMark] n))
  | _ => none

/-- What a node means, if its kind has a meaning of its own. -/
def view? (n : Node) : Option View :=
  n.kind.markup?.bind fun kind => viewOf? kind n

/-- The text of a link or the label of an image as it is written. -/
def linkLabel (nodes : List Node) : String :=
  String.join (nodes.map Node.fullText)

end ComponentMarkup.Document
