import ComponentMarkup.Script.Parser

/-!
# The script language

A subset of a common scripting language: declarations, control flow, imports and exports, and expressions
with calls, arrow functions and templates.  Parsing never fails; what does not fit becomes faults in the
tree.

A few goals refer to each other and to themselves: statements, expressions, primary expressions and objects.
A rule gets a reader for goals as its argument, and `readGoal` ties the knot with as much fuel as any text can
use: nesting of statements and expressions is limited, and a primary expression or an object inside another
takes a token.
-/

namespace ComponentMarkup.Script

open ComponentMarkup.Text ComponentMarkup.Tree

/-- What a parser can be asked to read. -/
inductive Goal where
  /-- A statement. -/
  | statement
  /-- An expression whose operators bind at least as tightly as `power`. -/
  | expression (power : Nat)
  /-- A primary expression. -/
  | primary
  /-- An object or an object pattern. -/
  | object
  deriving DecidableEq, Repr

/-- Reads a goal. -/
abbrev Reader := Goal → Parser → Parser

/-! ## Kinds of tokens -/

/-- Tokens that start a declaration or a control flow statement. -/
def statementStart : List ScriptKind :=
  [.letWord, .constWord, .varWord, .functionWord, .asyncWord, .returnWord, .ifWord, .forWord,
    .whileWord, .breakWord, .continueWord, .importWord, .exportWord, .leftBrace, .semicolon]

/-- Operators before their operand. -/
def unaryOperator : List ScriptKind :=
  [.bang, .plus, .minus, .step, .typeofWord, .awaitWord]

/-- Tokens that start an expression. -/
def expressionStart : List ScriptKind :=
  [.ident, .number, .str, .template, .boolean, .nullWord, .thisWord, .embed, .leftBrace, .leftBracket,
    .leftParen, .functionWord, .asyncWord, .newWord] ++ unaryOperator

/-- Tokens that start a statement of any kind. -/
def anyStatementStart : List ScriptKind :=
  statementStart ++ expressionStart

/-- Tokens that start a property or a spread. -/
def propertyStart : List ScriptKind :=
  [.ident, .str, .number, .leftBracket, .dots] ++ Parser.reserved

/-- Tokens that end a list of statements. -/
def statementEnd : List ScriptKind :=
  [.rightBrace, .endOfTokens]

/-- How tightly assignments bind. -/
def assignPower : Nat := 2

/-- How tightly conditionals bind. -/
def conditionalPower : Nat := 3

/-- How tightly operators before their operand bind. -/
def unaryPower : Nat := 15

/-- How tightly a binary operator binds, and whether it groups to the right. -/
def binaryPower? (kind : ScriptKind) (text : String) : Option (Nat × Bool) :=
  match kind with
  | .plus | .minus => some (12, false)
  | .star => some (13, false)
  | .inWord | .instanceofWord => some (10, false)
  | .binOp =>
    match text with
    | "??" | "||" => some (4, false)
    | "&&" => some (5, false)
    | "|" => some (6, false)
    | "^" => some (7, false)
    | "&" => some (8, false)
    | "==" | "!=" | "===" | "!==" => some (9, false)
    | "<" | ">" | "<=" | ">=" => some (10, false)
    | "<<" | ">>" | ">>>" => some (11, false)
    | "/" | "%" => some (13, false)
    | "**" => some (14, true)
    | _ => none
  | _ => none

/-! ## Lists in brackets -/

/-- An expression in which assignments are allowed. -/
def readExpression (read : Reader) (p : Parser) : Parser :=
  read (.expression assignPower) p

/-- A spread. -/
def readSpread (read : Reader) (p : Parser) : Parser :=
  let mark := p.mark
  (readExpression read (p.eatKnown .dots)).wrap mark .spread

/-- One element of a list that a bracket ends, with the comma after it. -/
def readElement (read : Reader) (close : ScriptKind) (p : Parser) : Parser :=
  if p.isAt .dots || p.isAtAny expressionStart then
    let p := if p.isAt .dots then readSpread read p else readExpression read p
    if p.isAt close then p else p.require .comma
  else p.unexpected

/-- Elements between parentheses. -/
def readElements (read : Reader) (p : Parser) : Parser :=
  let mark := p.mark
  let p := (p.eatKnown .leftParen).loopUntil [.rightParen, .endOfTokens]
    (readElement read .rightParen)
  p.closeAt mark .rightParen

/-- The arguments of a call. -/
def readArguments (read : Reader) (p : Parser) : Parser :=
  let mark := p.mark
  (readElements read p).wrap mark .args

/-- An array or array pattern, in which elements may be left out. -/
def readArray (read : Reader) (p : Parser) : Parser :=
  let mark := p.mark
  let p := (p.eatKnown .leftBracket).loopUntil [.rightBracket, .endOfTokens] fun p =>
    if p.isAt .comma then p.eat else readElement read .rightBracket p
  (p.closeAt mark .rightBracket).wrap mark .array

/-- An index in brackets. -/
def readIndex (read : Reader) (p : Parser) : Parser :=
  let mark := p.mark
  (readExpression read (p.eatKnown .leftBracket)).closeAt mark .rightBracket

/-! ## Blocks, functions and objects -/

/-- A statement, or a token that starts none. -/
def readStatementOrFault (read : Reader) (p : Parser) : Parser :=
  if p.isAtAny anyStatementStart then read .statement p else p.unexpected

/-- A block of statements. -/
def readBlock (read : Reader) (p : Parser) : Parser :=
  let mark := p.mark
  let (p, found) := p.expect .leftBrace
  if !found then p
  else
    let p := p.loopUntil statementEnd (readStatementOrFault read)
    (p.closeAt mark .rightBrace).wrap mark .block

/-- What a declaration or a parameter binds: an identifier or a pattern. -/
def readBinding (read : Reader) (p : Parser) : Parser :=
  if p.isAt .leftBracket then readArray read p
  else if p.isAt .leftBrace then read .object p
  else p.require .ident

/-- One parameter of a function, with the comma after it. -/
def readParameter (read : Reader) (p : Parser) : Parser :=
  let mark := p.mark
  let (p, isSpread) := p.eatIf .dots
  if !p.isAtAny [.ident, .leftBracket, .leftBrace] then p.unexpected
  else
    let p := readBinding read p
    let p :=
      if isSpread then p.wrap mark .spread
      else if p.isAt .assign then (readExpression read p.eat).wrap mark .assignment
      else p
    if p.isAt .rightParen then p else p.require .comma

/-- The parameters of a function. -/
def readParameters (read : Reader) (p : Parser) : Parser :=
  let mark := p.mark
  let (p, found) := p.expect .leftParen
  if !found then p
  else
    let p := p.loopUntil [.rightParen, .endOfTokens] (readParameter read)
    (p.closeAt mark .rightParen).wrap mark .params

/-- The parameters and the body of a function. -/
def readFunctionRest (read : Reader) (p : Parser) : Parser :=
  readBlock read (readParameters read p)

/-- The body of an arrow function: a block or an expression. -/
def readArrowBody (read : Reader) (p : Parser) : Parser :=
  if p.isAt .leftBrace then readBlock read p else readExpression read p

/-- The key of a property. -/
def readKey (read : Reader) (p : Parser) : Parser :=
  if p.isAt .leftBracket then readIndex read p
  else if p.isAtAny Parser.reserved then p.eatWithKind .ident
  else p.eat

/-- What follows the key of a property.  Only a plain identifier may stand alone or have a default. -/
def readValue (read : Reader) (shorthand : Bool) (p : Parser) : Parser :=
  if p.isAt .colon then
    let p := p.eat
    if p.isAtAny expressionStart then readExpression read p else p.expected "expression"
  else if p.isAt .leftParen then readFunctionRest read p
  else if !shorthand then p.expected "colon"
  else if p.isAt .assign then readExpression read p.eat
  else p

/-- A property or a spread. -/
def readProperty (read : Reader) (p : Parser) : Parser :=
  if p.isAt .dots then readSpread read p
  else
    let mark := p.mark
    let shorthand := p.isAt .ident
    (readValue read shorthand (readKey read p)).wrap mark .property

/-- One property of a list that a token ends, with the comma after it. -/
def readListedProperty (read : Reader) (close : ScriptKind) (p : Parser) : Parser :=
  if !p.isAtAny propertyStart then p.unexpected
  else
    let p := readProperty read p
    if p.isAt close then p else p.require .comma

/-- An object or object pattern. -/
def readObject (read : Reader) (p : Parser) : Parser :=
  let mark := p.mark
  let p := (p.eatKnown .leftBrace).loopUntil [.rightBrace, .endOfTokens]
    (readListedProperty read .rightBrace)
  (p.closeAt mark .rightBrace).wrap mark .object

/-! ## Statements -/

/-- The end of a statement: a semicolon, a line end or what ends the list of statements. -/
def endStatement (p : Parser) : Parser :=
  let (p, found) := p.eatIf .semicolon
  if found || p.newline || p.isAtAny statementEnd then p
  else p.expected "semicolon or line break"

/-- One declared binding with its value.  A comma asks for another. -/
def readDeclarator (read : Reader) (p : Parser) : Parser × Bool :=
  let p := readBinding read p
  let p := if p.isAt .assign then readExpression read p.eat else p
  p.eatIf .comma

/-- A declaration of variables. -/
def readDeclaration (read : Reader) (p : Parser) : Parser :=
  let mark := p.mark
  (endStatement (p.eat.loop (readDeclarator read))).wrap mark .varDecl

/-- A declaration of a function, which starts at a mark. -/
def readFunction (read : Reader) (mark : Nat) (p : Parser) : Parser :=
  let p := ((p.eatKnown .functionWord).skip .star).require .ident
  (readFunctionRest read p).wrap mark .funcDecl

/-- Whether an asynchronous function is declared here. -/
def isAtAsyncFunction (p : Parser) : Bool :=
  p.isAt .asyncWord && p.nextIs .functionWord

/-- The parenthesized condition of a branch or loop. -/
def readCondition (read : Reader) (p : Parser) : Parser :=
  let mark := p.mark
  let (p, found) := p.expect .leftParen
  if found then (readExpression read p).closeAt mark .rightParen else p

/-- The body of a branch or loop. -/
def readBody (read : Reader) (p : Parser) : Parser :=
  if p.isAtAny anyStatementStart then read .statement p else p.expected "statement"

/-- A branch. -/
def readIf (read : Reader) (p : Parser) : Parser :=
  let mark := p.mark
  let p := readBody read (readCondition read (p.eatKnown .ifWord))
  let (p, found) := p.eatIf .elseWord
  (if found then readBody read p else p).wrap mark .ifStmt

/-- A semicolon in the head of a loop and the optional expression behind it. -/
def readClause (read : Reader) (p : Parser) : Parser :=
  let p := p.require .semicolon
  if p.isAtAny [.semicolon, .rightParen] then p else readExpression read p

/-- What a loop starts from: a declaration, an expression or nothing. -/
def readLoopStart (read : Reader) (p : Parser) : Parser :=
  if p.isAtAny [.letWord, .constWord, .varWord] then
    let p := readBinding read p.eat
    if p.isAt .assign then readExpression read p.eat else p
  else if p.isAt .semicolon then p
  else readExpression read p

/-- A loop over the elements of something, or with a start, a test and an update. -/
def readFor (read : Reader) (p : Parser) : Parser :=
  let mark := p.mark
  let p := (p.eatKnown .forWord).skip .awaitWord
  let left := p.mark
  let p := readLoopStart read (p.require .leftParen)
  let p :=
    if p.isAt .ofWord || p.isAt .inWord then readExpression read p.eat
    else readClause read (readClause read p)
  (readBody read (p.closeAt left .rightParen)).wrap mark .forStmt

/-- A loop with a condition. -/
def readWhile (read : Reader) (p : Parser) : Parser :=
  let mark := p.mark
  (readBody read (readCondition read p.eat)).wrap mark .whileStmt

/-- A return with an optional value on the same line. -/
def readReturn (read : Reader) (p : Parser) : Parser :=
  let mark := p.mark
  let p := p.eat
  let p := if !p.newline && p.isAtAny expressionStart then readExpression read p else p
  (endStatement p).wrap mark .returnStmt

/-- A jump out of a loop or to its next round, with an optional label on the same line. -/
def readJump (p : Parser) : Parser :=
  let mark := p.mark
  let p := p.eat
  let p := if !p.newline && p.isAt .ident then p.eat else p
  (endStatement p).wrap mark .jumpStmt

/-! ## Imports and exports -/

/-- One imported or exported name, with the comma after it. -/
def readSpecifier (p : Parser) : Parser :=
  if !(p.isAt .ident || p.isAtAny Parser.reserved) then p.unexpected
  else
    let (p, renamed) := (p.eatWithKind .ident).eatIf .asWord
    let p :=
      if !renamed then p
      else if p.isAtAny Parser.reserved then p.eatWithKind .ident
      else p.require .ident
    if p.isAt .rightBrace then p else p.require .comma

/-- A list of imported or exported names in braces. -/
def readSpecifiers (p : Parser) : Parser :=
  let mark := p.mark
  ((p.eatKnown .leftBrace).loopUntil statementEnd readSpecifier).closeAt mark .rightBrace

/-- One clause of an import.  A comma asks for another. -/
def readImportClause (p : Parser) : Parser × Bool :=
  if p.isAt .ident then p.eat.eatIf .comma
  else if p.isAt .star then ((p.eat.require .asWord).require .ident).eatIf .comma
  else if p.isAt .leftBrace then (readSpecifiers p).eatIf .comma
  else (p.expected "import specifier", false)

/-- An import. -/
def readImport (p : Parser) : Parser :=
  let mark := p.mark
  let (p, bare) := (p.eatKnown .importWord).eatIf .str
  let p := if bare then p else ((p.loop readImportClause).require .fromWord).require .str
  (endStatement p).wrap mark .importDecl

/-- The names that an export lists, or the star, and where they come from. -/
def readExportList (p : Parser) : Parser :=
  let p :=
    if p.isAt .star then
      let (p, renamed) := p.eat.eatIf .asWord
      if renamed then p.require .ident else p
    else readSpecifiers p
  let (p, found) := p.eatIf .fromWord
  endStatement (if found then p.require .str else p)

/-- An export. -/
def readExport (read : Reader) (p : Parser) : Parser :=
  let mark := p.mark
  let p := p.eatKnown .exportWord
  let p :=
    if p.isAt .defaultWord then endStatement (readExpression read p.eat)
    else if p.isAtAny [.letWord, .constWord, .varWord] then readDeclaration read p
    else if p.isAt .functionWord then readFunction read p.mark p
    else if isAtAsyncFunction p then readFunction read p.mark p.eat
    else if p.isAtAny [.leftBrace, .star] then readExportList p
    else p.expected "declaration or export list"
  p.wrap mark .exportDecl

/-- An expression as a statement. -/
def readExpressionStatement (read : Reader) (p : Parser) : Parser :=
  let mark := p.mark
  (endStatement (readExpression read p)).wrap mark .exprStmt

/-- A statement, once a level of nesting has been entered. -/
def readStatementHere (read : Reader) (p : Parser) : Parser :=
  match p.kind? with
  | some .letWord | some .constWord | some .varWord => readDeclaration read p
  | some .functionWord => readFunction read p.mark p
  | some .asyncWord =>
    if p.nextIs .functionWord then readFunction read p.mark p.eat
    else readExpressionStatement read p
  | some .returnWord => readReturn read p
  | some .ifWord => readIf read p
  | some .forWord => readFor read p
  | some .whileWord => readWhile read p
  | some .breakWord | some .continueWord => readJump p
  | some .importWord => readImport p
  | some .exportWord => readExport read p
  | some .leftBrace => readBlock read p
  | some .semicolon => p.eat
  | _ => readExpressionStatement read p

/-- A statement. -/
def readStatement (read : Reader) (p : Parser) : Parser :=
  let (p, entered) := p.enter
  if entered then (readStatementHere read p).leave else p

/-! ## Expressions -/

/-- What may follow an optional chain: a call, an index or a member. -/
def readChained (read : Reader) (mark : Nat) (calls : Bool) (p : Parser) : Parser :=
  if calls && p.isAt .leftParen then (readArguments read p).wrap mark .call
  else if p.isAt .leftBracket then (readIndex read p).wrap mark .index
  else (p.require .ident).wrap mark .member

/-- One operation behind the expression that starts at a mark, and whether there was one.  Calls and indices
go on only on the same line. -/
def readSuffix (read : Reader) (mark : Nat) (calls : Bool) (p : Parser) : Parser × Bool :=
  if p.isAt .dot then ((p.eat.require .ident).wrap mark .member, true)
  else if p.isAt .questionDot then (readChained read mark calls p.eat, true)
  else if p.newline then (p, false)
  else if p.isAt .leftBracket then ((readIndex read p).wrap mark .index, true)
  else if !calls then (p, false)
  else if p.isAt .leftParen then ((readArguments read p).wrap mark .call, true)
  else if p.isAt .template then (p.eat.wrap mark .call, true)
  else if p.isAt .step then (p.eat.wrap mark .postfixExpr, true)
  else (p, false)

/-- One operator behind the expression that starts at a mark, with its right operand, if it binds tightly
enough. -/
def readOperator (read : Reader) (mark power : Nat) (p : Parser) : Parser × Bool :=
  match p.kind? with
  | some .assign =>
    if assignPower < power then (p, false)
    else ((readExpression read p.eat).wrap mark .assignment, true)
  | some .question =>
    if conditionalPower < power then (p, false)
    else
      let p := (readExpression read p.eat).require .colon
      ((readExpression read p).wrap mark .ternary, true)
  | some kind =>
    match binaryPower? kind p.current.node.text with
    | none => (p, false)
    | some (tightness, toRight) =>
      if tightness < power then (p, false)
      else
        let next := if toRight then tightness else tightness + 1
        ((read (.expression next) p.eat).wrap mark .binary, true)
  | none => (p, false)

/-- One step behind the expression that starts at a mark, and whether there was one. -/
def readContinuation (read : Reader) (mark power : Nat) (p : Parser) : Parser × Bool :=
  let (p, found) := readSuffix read mark true p
  if found then (p, true) else readOperator read mark power p

/-- The operand that an expression starts with. -/
def readOperand (read : Reader) (p : Parser) : Parser :=
  if p.isAtAny unaryOperator then
    let mark := p.mark
    (read (.expression unaryPower) p.eat).wrap mark .unary
  else read .primary p

/-- An expression whose operators bind at least as tightly as `power`. -/
def readOperation (read : Reader) (power : Nat) (p : Parser) : Parser :=
  let (p, entered) := p.enter
  if entered then
    let mark := p.mark
    ((readOperand read p).loop (readContinuation read mark power)).leave
  else p

/-- Whether an arrow stands here, on the line of what it follows. -/
def isAtArrow (p : Parser) : Bool :=
  p.isAt .arrow && !p.newline

/-- An identifier, or an arrow function with it as its parameter. -/
def readName (read : Reader) (p : Parser) : Parser :=
  let mark := p.mark
  let p := p.eat
  if isAtArrow p then (readArrowBody read (p.wrap mark .params).eat).wrap mark .arrowFunc
  else p

/-- An asynchronous function, or just the word. -/
def readAsync (read : Reader) (p : Parser) : Parser :=
  let mark := p.mark
  let p := p.eat
  if p.isAtAny [.ident, .leftParen, .functionWord] && !p.newline then
    let inner := p.mark
    let p := read .primary p
    let isFunction := (p.nodes[inner]?).any (·.isScript .funcExpr)
    p.wrap mark (if isFunction then .funcExpr else .arrowFunc)
  else p

/-- A parenthesized expression or, if an arrow follows, an arrow function.  A group is read at most twice: as
elements and, if an arrow follows, again as parameters.  The second result is remembered, so nested arrow
functions take linear time. -/
def readGroup (read : Reader) (p : Parser) : Parser :=
  match p.knownArrow? with
  | some group => p.replay group
  | none =>
    let mark := p.mark
    let start := p.current.node.start
    let later := readElements read p
    if !isAtArrow later then later.wrap mark .paren
    else
      let p := (readParameters read (later.rewind p)).require .arrow
      ((readArrowBody read p).wrap mark .arrowFunc).remember start mark

/-- A function as an expression. -/
def readFunctionExpression (read : Reader) (p : Parser) : Parser :=
  let mark := p.mark
  (readFunctionRest read ((p.eat.skip .star).skip .ident)).wrap mark .funcExpr

/-- A construction: what is constructed, without calls, and the arguments. -/
def readNew (read : Reader) (p : Parser) : Parser :=
  let mark := p.mark
  let p := p.eat
  let callee := p.mark
  let nested := p.isAt .newWord
  let p := read .primary p
  let p := if nested then p else p.loop (readSuffix read callee false)
  let p := if p.isAt .leftParen && !p.newline then readArguments read p else p
  p.wrap mark .newExpr

/-- A primary expression. -/
def readPrimary (read : Reader) (p : Parser) : Parser :=
  match p.kind? with
  | some .ident => readName read p
  | some .asyncWord => readAsync read p
  | some .leftParen => readGroup read p
  | some .leftBracket => readArray read p
  | some .leftBrace => read .object p
  | some .functionWord => readFunctionExpression read p
  | some .newWord => readNew read p
  | some .number | some .str | some .template | some .boolean | some .nullWord | some .thisWord
  | some .embed => p.eat
  | _ => p.expected "expression"

/-! ## Goals and entry points -/

/-- Reads a goal, going at most `fuel` goals deep. -/
def readGoal : (fuel : Nat) → Reader
  | 0, _, p => p
  | fuel + 1, .statement, p => readStatement (readGoal fuel) p
  | fuel + 1, .expression power, p => readOperation (readGoal fuel) power p
  | fuel + 1, .primary, p => readPrimary (readGoal fuel) p
  | fuel + 1, .object, p => readObject (readGoal fuel) p

/-- How many goals deep the tokens of a parser can lead. -/
def goalFuel (p : Parser) : Nat :=
  3 * (maxDepth + p.budget)

/-- Statements up to the end. -/
def readScript (p : Parser) : Parser :=
  p.loopUntil [.endOfTokens] (readStatementOrFault (readGoal (goalFuel p)))

/-- One expression and nothing behind it. -/
def readSoleExpression (p : Parser) : Parser :=
  let read := readGoal (goalFuel p)
  let p :=
    if p.isAtAny expressionStart then readExpression read p
    else if p.atEnd then p
    else p.expected "expression"
  p.loopUntil [.endOfTokens] Parser.unexpected

/-- Properties separated by commas up to the end. -/
def readAttributes (p : Parser) : Parser :=
  p.loopUntil [.endOfTokens] (readListedProperty (readGoal (goalFuel p)) .endOfTokens)

/-- Where reading a script can start. -/
inductive Entry where
  /-- Statements. -/
  | statements
  /-- One expression. -/
  | expression
  /-- Properties. -/
  | attributes
  deriving DecidableEq, Repr

namespace Entry

/-- The entry points, in the order in which they are listed. -/
def all : List Entry := [.statements, .expression, .attributes]

/-- The name of an entry point. -/
def name : Entry → String
  | statements => "statements"
  | expression => "expression"
  | attributes => "attributes"

/-- The entry point of a name. -/
def ofName? (text : String) : Option Entry :=
  all.find? fun entry => entry.name == text

end Entry

/-- Reads a stretch of a text from an entry point. -/
def readEntry (src : Source) (s : Span) (entry : Entry) : Limited Node :=
  let p := Parser.ofSpan src s
  match entry with
  | .statements =>
    let p := readScript p
    (p.eatAll p.budget).finish .statements
  | .expression =>
    let p := readSoleExpression p
    (p.eatAll p.budget).finish .expression
  | .attributes =>
    let p := readAttributes p
    (p.eatAll p.budget).finish .attributes

/-- Reads a stretch of a text from the entry point of a name.  An unknown name makes the whole stretch a
fault. -/
def readNamed (src : Source) (s : Span) (entry : String) : Limited Node :=
  match Entry.ofName? entry with
  | some entry => readEntry src s entry
  | none =>
    let message := "unknown script entry point `" ++ entry ++ "`"
    ⟨.branch (.script .statements) [.fault message [] (src.text s) s], none⟩

end ComponentMarkup.Script
