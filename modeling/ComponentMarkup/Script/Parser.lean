import ComponentMarkup.Script.Token
import ComponentMarkup.Tree.Depth

/-!
# The state of the script parser

A script parser holds the token it stands at and the nodes of everything before it, white space and comments
included.  Parsing appends nodes and wraps runs of them into branches.  A mark is a number of nodes: the
place in the run of nodes where a branch will start.

Faults without text are put before the white space in front of the current token, so that they stand where
something was expected; they are dropped again when the token itself turns out to be at fault.

Steps that rely on what the parser looked at before record in `intact` whether that held.
-/

namespace ComponentMarkup.Script

open ComponentMarkup.Text ComponentMarkup.Tree

/-- The token that a parser stands at. -/
structure Current where
  /-- The token: neither white space nor a comment. -/
  node : Node
  /-- Its kind when it was read. -/
  kind : Kind
  /-- How many nodes of white space and comments stand before it. -/
  trivia : Nat
  /-- Whether there is a line end among them. -/
  newline : Bool
  /-- Where the token before it ends. -/
  previousStop : Nat

/-- A parenthesized group that was read as an arrow function. -/
structure ArrowGroup where
  /-- Where the group starts. -/
  start : Nat
  /-- The nodes it became. -/
  nodes : List Node
  /-- The lexer behind it. -/
  lexer : Lexer
  /-- The token behind it. -/
  current : Current

/-- The state of a parser. -/
structure Parser where
  /-- The lexer behind the current token. -/
  lexer : Lexer
  /-- The current token. -/
  current : Current
  /-- The nodes before the current token. -/
  nodes : Array Node
  /-- Where the parsed stretch starts. -/
  start : Nat
  /-- How deep statements and expressions are nested. -/
  depth : Nat
  /-- Where nesting first got too deep. -/
  overflow : Option Nat
  /-- The groups already read as arrow functions. -/
  arrows : List ArrowGroup
  /-- Whether every step so far found what it relied on. -/
  intact : Bool

/-! ## Reading tokens -/

/-- Reads white space and comments, adding them to the nodes, up to the next other token. -/
def readTrivia (previousStop : Nat) :
    Nat → Lexer → Array Node → (trivia : Nat) → (newline : Bool) → Current × Lexer × Array Node
  | fuel, lexer, nodes, trivia, newline =>
    let (node, lexer') := lexer.next
    match fuel with
    | 0 => (⟨node, node.kind, trivia, newline, previousStop⟩, lexer', nodes)
    | fuel + 1 =>
      if node.kind.isTrivia then
        readTrivia previousStop fuel lexer' (nodes.push node) (trivia + 1)
          (newline || node.text.toList.any isNewline)
      else (⟨node, node.kind, trivia, newline, previousStop⟩, lexer', nodes)

/-- Reads the next token and what stands before it. -/
def readCurrent (lexer : Lexer) (nodes : Array Node) : Current × Lexer × Array Node :=
  readTrivia lexer.place lexer.rest.length lexer nodes 0 false

/-- The kind of the next token that is neither white space nor a comment. -/
def peekKind : Nat → Lexer → Kind
  | 0, lexer => lexer.next.1.kind
  | fuel + 1, lexer =>
    let (node, lexer) := lexer.next
    if node.kind.isTrivia then peekKind fuel lexer else node.kind

namespace Parser

/-- The parser at the start of a stretch of a text. -/
def ofSpan (src : Source) (s : Span) : Parser :=
  let (current, lexer, nodes) := readCurrent (.ofSpan src s) #[]
  { lexer := lexer, current := current, nodes := nodes, start := s.start, depth := 0,
    overflow := none, arrows := [], intact := true }

/-! ## Looking -/

/-- The kind of the current token, unless it is a fault. -/
def kind? (p : Parser) : Option ScriptKind :=
  p.current.kind.script?

/-- Whether the current token is of a kind. -/
def isAt (p : Parser) (k : ScriptKind) : Bool :=
  p.current.kind == .script k

/-- Whether the current token is of one of several kinds. -/
def isAtAny (p : Parser) (ks : List ScriptKind) : Bool :=
  p.kind?.any ks.contains

/-- Whether there is no token left. -/
def atEnd (p : Parser) : Bool :=
  p.isAt .endOfTokens

/-- Whether a line end stands before the current token. -/
def newline (p : Parser) : Bool :=
  p.current.newline

/-- Whether the token after the current one is of a kind. -/
def nextIs (p : Parser) (k : ScriptKind) : Bool :=
  peekKind p.lexer.rest.length p.lexer == .script k

/-- The mark at the current token. -/
def mark (p : Parser) : Nat :=
  p.nodes.size

/-- The mark before the white space and comments in front of the current token. -/
def markBeforeTrivia (p : Parser) : Nat :=
  p.nodes.size - p.current.trivia

/-- A bound on the tokens that are left. -/
def budget (p : Parser) : Nat :=
  p.lexer.rest.length + 2

/-! ## Moving on -/

/-- Records whether something the parser relies on holds. -/
def check (p : Parser) (holds : Bool) : Parser :=
  { p with intact := p.intact && holds }

/-- Takes the current token, as the given node, and reads the next. -/
def eatAs (p : Parser) (node : Node) : Parser :=
  let (current, lexer, nodes) := readCurrent p.lexer (p.nodes.push node)
  { p with lexer := lexer, current := current, nodes := nodes }

/-- Takes the current token. -/
def eat (p : Parser) : Parser :=
  p.eatAs p.current.node

/-- Takes the current token, which is of the given kind. -/
def eatKnown (p : Parser) (k : ScriptKind) : Parser :=
  (p.check (p.isAt k)).eat

/-- Takes the current token as one of another kind. -/
def eatWithKind (p : Parser) (k : ScriptKind) : Parser :=
  (p.check !p.current.node.isFault).eatAs (p.current.node.withKind (.script k))

/-- Takes the current token if it is of a kind. -/
def eatIf (p : Parser) (k : ScriptKind) : Parser × Bool :=
  if p.isAt k then (p.eat, true) else (p, false)

/-- Takes the current token if it is of a kind, whether or not it was. -/
def skip (p : Parser) (k : ScriptKind) : Parser :=
  (p.eatIf k).1

/-- Takes all tokens that are left. -/
def eatAll : Nat → Parser → Parser
  | 0, p => p
  | fuel + 1, p => if p.atEnd then p else eatAll fuel p.eat

/-! ## Wrapping -/

/-- Where a node put at a mark would start. -/
def placeAt (p : Parser) (mark : Nat) : Nat :=
  if mark = 0 then p.start else ((p.nodes[mark - 1]?).map Node.stop).getD p.start

/-- Wraps the nodes from a mark up to the white space before the current token into a branch. -/
def wrap (p : Parser) (mark : Nat) (kind : ScriptKind) : Parser :=
  let stop := p.markBeforeTrivia
  let start := min mark stop
  let children := (p.nodes.extract start stop).toList
  let node := Node.branchAt (.script kind) (p.placeAt start) children
  let nodes := (p.nodes.extract 0 start).push node ++ p.nodes.extract stop p.nodes.size
  { p.check (p.current.trivia ≤ p.nodes.size) with nodes := nodes }

/-! ## Faults -/

/-- The node as a fault, if it is not one already.  Its text is kept. -/
def faultOf (node : Node) (message : String) : Node :=
  if node.isFault then node
  else
    let text := node.fullText
    .fault message [] text ⟨node.start, node.start + text.length⟩

/-- The words that are reserved in statements, though they may name properties. -/
def reserved : List ScriptKind :=
  [.letWord, .constWord, .varWord, .functionWord, .asyncWord, .awaitWord, .returnWord, .ifWord,
    .elseWord, .forWord, .whileWord, .ofWord, .inWord, .instanceofWord, .typeofWord, .newWord,
    .breakWord, .continueWord, .importWord, .exportWord, .fromWord, .asWord, .defaultWord, .boolean,
    .nullWord, .thisWord]

/-- Records that something was expected before the white space in front of the current token, unless a fault
stands there already. -/
def expected (p : Parser) (thing : String) : Parser :=
  let mark := p.markBeforeTrivia
  let p := p.check (p.current.trivia ≤ p.nodes.size)
  if mark ≠ 0 ∧ (p.nodes[mark - 1]?).any Node.isFault then p
  else
    let place := p.current.previousStop
    let node := Node.fault ("expected " ++ thing) [] "" ⟨place, place⟩
    { p with nodes := (p.nodes.extract 0 mark).push node ++ p.nodes.extract mark p.nodes.size }

/-- Where the empty faults at the end of the nodes before a mark start. -/
def emptyFaultsStart (nodes : Array Node) : (mark : Nat) → Nat
  | 0 => 0
  | mark + 1 =>
    if (nodes[mark]?).any fun n => n.isFault && n.span.size == 0 then emptyFaultsStart nodes mark
    else mark + 1

/-- Drops the empty faults before the white space in front of the current token. -/
def trimFaults (p : Parser) : Parser :=
  let stop := p.markBeforeTrivia
  let start := emptyFaultsStart p.nodes stop
  { p.check (p.current.trivia ≤ p.nodes.size) with
    nodes := p.nodes.extract 0 start ++ p.nodes.extract stop p.nodes.size }

/-- Takes the current token as one that must not stand here. -/
def unexpected (p : Parser) : Parser :=
  let p := p.trimFaults
  p.eatAs (faultOf p.current.node ("unexpected " ++ p.current.node.kind.title))

/-- Takes a reserved word where an identifier was expected. -/
def eatReserved (p : Parser) : Parser :=
  let p := p.trimFaults
  let node := p.current.node
  let wrong := faultOf node
    ("expected " ++ ScriptKind.ident.title ++ ", found " ++ node.kind.title)
  let word := wrong.text
  p.eatAs (wrong.hint
    ("keyword `" ++ word ++ "` is not allowed as an identifier; try `" ++ word ++ "_` instead"))

/-- Takes a token of the given kind, or records that it was expected. -/
def expect (p : Parser) (k : ScriptKind) : Parser × Bool :=
  if p.isAt k then (p.eat, true)
  else if k == .ident && p.isAtAny reserved then (p.eatReserved, false)
  else (p.expected k.title, false)

/-- Takes a token of the given kind, or records that it was expected, whether or not it was there. -/
def require (p : Parser) (k : ScriptKind) : Parser :=
  (p.expect k).1

/-- Takes a closing bracket, or turns the opening one at the given mark into a fault. -/
def closeAt (p : Parser) (mark : Nat) (k : ScriptKind) : Parser :=
  if p.isAt k then p.eat
  else
    match p.nodes[mark]? with
    | some node => { p with nodes := p.nodes.setIfInBounds mark (faultOf node "unclosed delimiter") }
    | none => p

/-! ## Nesting -/

/-- Enters one level of nesting.  Past the limit the rest of the script is taken as it is. -/
def enter (p : Parser) : Parser × Bool :=
  if maxDepth ≤ p.depth then
    (eatAll p.budget { p with overflow := Limited.first p.overflow (some p.current.node.start) },
      false)
  else ({ p with depth := p.depth + 1 }, true)

/-- Leaves one level of nesting. -/
def leave (p : Parser) : Parser :=
  { p with depth := p.depth - 1 }

/-! ## Going back -/

/-- Returns to an earlier state, keeping what is known about arrow functions and depth. -/
def rewind (p : Parser) (earlier : Parser) : Parser :=
  { p.check (earlier.nodes.size ≤ p.nodes.size) with
    lexer := earlier.lexer
    current := earlier.current
    nodes := p.nodes.extract 0 earlier.nodes.size }

/-- The arrow function known to start at the current token. -/
def knownArrow? (p : Parser) : Option ArrowGroup :=
  p.arrows.find? fun group => group.start == p.current.node.start

/-- Takes an arrow function that was read before. -/
def replay (p : Parser) (group : ArrowGroup) : Parser :=
  { p with
    lexer := group.lexer
    current := group.current
    nodes := p.nodes ++ group.nodes.toArray }

/-- Remembers the arrow function whose nodes start at a mark. -/
def remember (p : Parser) (start mark : Nat) : Parser :=
  let group : ArrowGroup :=
    { start := start, nodes := (p.nodes.extract mark p.nodes.size).toList, lexer := p.lexer,
      current := p.current }
  { p with arrows := group :: p.arrows }

/-- The root of the given kind over all nodes, and where nesting got too deep. -/
def finish (p : Parser) (kind : ScriptKind) : Limited Node :=
  ⟨.branchAt (.script kind) p.start p.nodes.toList, p.overflow⟩

/-- Repeats a step as long as it asks for more. -/
def repeatStep (step : Parser → Parser × Bool) : Nat → Parser → Parser
  | 0, p => p
  | fuel + 1, p =>
    match step p with
    | (p, true) => repeatStep step fuel p
    | (p, false) => p

/-- Repeats a step as long as it asks for more, at most once for every token that is left. -/
def loop (p : Parser) (step : Parser → Parser × Bool) : Parser :=
  repeatStep step p.budget p

/-- Repeats a step until the current token is of one of the given kinds. -/
def loopUntil (p : Parser) (stops : List ScriptKind) (step : Parser → Parser) : Parser :=
  p.loop fun p => if p.isAtAny stops then (p, false) else (step p, true)

end Parser

end ComponentMarkup.Script
