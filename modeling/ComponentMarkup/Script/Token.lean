import ComponentMarkup.Text.Bracket
import ComponentMarkup.Tree.Node

/-!
# Tokens of the script language

A lexer stands between the characters before it, last first, and the characters still to be read.  The next
token is the longest stretch that its first character allows; what cannot be a token is a fault with the
text it covers.  Concatenated, the texts of the tokens are the text that was read.

A word that is otherwise reserved names a member after a dot.
-/

namespace ComponentMarkup.Script

open ComponentMarkup.Text ComponentMarkup.Tree

/-- Where a script is being read. -/
structure Lexer where
  /-- The characters before the place, last first, from the start of the whole text. -/
  before : List Char
  /-- The place. -/
  place : Nat
  /-- The characters still to be read. -/
  rest : List Char

/-- The lexer at the start of a stretch of a text. -/
def Lexer.ofSpan (src : Source) (s : Span) : Lexer where
  before := (src.slice 0 s.start).reverse
  place := s.start
  rest := src.slice s.start s.stop

/-- What a stretch at the start of a text is, and how many characters it has. -/
structure Lexeme where
  /-- The kind of token, or what is wrong with it. -/
  kind : Except String ScriptKind
  /-- The number of characters. -/
  length : Nat

/-! ## Single kinds of tokens -/

/-- A comment between slashes and stars, given the characters after the first star. -/
def blockCommentLength? : List Char → Option Nat
  | [] => none
  | '*' :: '/' :: _ => some 2
  | _ :: cs => (blockCommentLength? cs).map (· + 1)

/-- How many characters of a string stand before its closing quote or a line end; one after a backslash does
not end it. -/
def stringLength (quote : Char) (escaped : Bool) : List Char → Nat
  | [] => 0
  | c :: cs =>
    if (c == quote || isNewline c) && !escaped then 0
    else stringLength quote (c == '\\' && !escaped) cs + 1

/-- How many characters of a template string there are up to its closing backtick, `depth` braces of
substitutions being open. -/
def templateLength? (depth : Nat) : List Char → Option Nat
  | [] => none
  | '\\' :: [] => none
  | '\\' :: _ :: cs => (templateLength? depth cs).map (· + 2)
  | '$' :: '{' :: cs => (templateLength? (depth + 1) cs).map (· + 2)
  | c :: cs =>
    if depth = 0 then
      if c == '\x60' then some 1 else (templateLength? 0 cs).map (· + 1)
    else if c == '{' then (templateLength? (depth + 1) cs).map (· + 1)
    else if c == '}' then (templateLength? (depth - 1) cs).map (· + 1)
    else (templateLength? depth cs).map (· + 1)

/-- A digit or an underscore between digits. -/
def isNumeral (c : Char) : Bool :=
  isDigit c || c == '_'

/-- The exponent of a number: its length, or the length of what there is of it. -/
def exponentLength : List Char → Except Nat Nat
  | c :: cs =>
    if c == 'e' || c == 'E' then
      let sign := if cs.head? == some '+' || cs.head? == some '-' then 1 else 0
      let digits := runLength isDigit (cs.drop sign)
      if digits = 0 then .error (1 + sign) else .ok (1 + sign + digits)
    else .ok 0
  | [] => .ok 0

/-- The fraction of a number that did not start with its point. -/
def fractionLength : List Char → Nat
  | '.' :: d :: cs => if isDigit d then 1 + runLength isNumeral (d :: cs) else 0
  | _ => 0

/-- The end of a number after its digits: an optional `n`, and no further word characters. -/
def numberEnd (length : Nat) (rest : List Char) : Lexeme :=
  let mark := if rest.head? == some 'n' then 1 else 0
  let extra := runLength isWordPart (rest.drop mark)
  if extra = 0 then ⟨.ok .number, length + mark⟩
  else ⟨.error "invalid number suffix", length + mark + extra⟩

/-- A number, given its first character and the characters after it. -/
def numberLexeme (c : Char) (cs : List Char) : Lexeme :=
  let isRadix := fun d =>
    d == 'x' || d == 'X' || d == 'o' || d == 'O' || d == 'b' || d == 'B'
  if c == '0' && cs.head?.any isRadix then
    let digits := runLength (fun d => isHexDigit d || d == '_') cs.tail
    numberEnd (digits + 2) (cs.drop (digits + 1))
  else
    let whole := runLength isNumeral cs
    let rest := cs.drop whole
    let fraction := if c == '.' then 0 else fractionLength rest
    let rest := rest.drop fraction
    let length := 1 + whole + fraction
    match exponentLength rest with
    | .error n => ⟨.error "invalid number exponent", length + n⟩
    | .ok n => numberEnd (length + n) (rest.drop n)

/-- The groups of an embedded command after its name, read one after the other: `length` characters so far. -/
def embedGroups : Nat → (length : Nat) → List Char → Lexeme
  | 0, length, _ => ⟨.ok .embed, length⟩
  | fuel + 1, length, cs =>
    match cs with
    | '[' :: cs =>
      match groupLength? .square cs with
      | none => ⟨.error "unclosed attribute list", length + 1 + cs.length⟩
      | some n => embedGroups fuel (length + n + 2) (cs.drop (n + 1))
    | '{' :: cs =>
      match closingBrace? 0 cs with
      | none => ⟨.error "unclosed command body", length + 1 + cs.length⟩
      | some n => embedGroups fuel (length + n + 2) (cs.drop (n + 1))
    | _ =>
      if length = 1 then ⟨.error "expected command name or body", length⟩ else ⟨.ok .embed, length⟩

/-- A command of the document language, given the characters after its sigil. -/
def embedLexeme (cs : List Char) : Lexeme :=
  match cs with
  | [] => embedGroups 1 1 []
  | c :: tail =>
    if isWordStart c then
      let n := runLength isWordPart cs
      embedGroups (cs.length + 1) (1 + n) (cs.drop n)
    else if isDigit c then
      let n := runLength isDigit cs
      embedGroups (cs.length + 1) (1 + n) (cs.drop n)
    else if c == '(' then
      match groupLength? .paren tail with
      | none => ⟨.error "unclosed dynamic command name", 1 + cs.length⟩
      | some n => embedGroups (cs.length + 1) (n + 3) (tail.drop (n + 1))
    else embedGroups (cs.length + 1) 1 cs

/-- The reserved words. -/
def reservedWord? (word : String) : Option ScriptKind :=
  match word with
  | "let" => some .letWord
  | "const" => some .constWord
  | "var" => some .varWord
  | "function" => some .functionWord
  | "async" => some .asyncWord
  | "await" => some .awaitWord
  | "return" => some .returnWord
  | "if" => some .ifWord
  | "else" => some .elseWord
  | "for" => some .forWord
  | "while" => some .whileWord
  | "of" => some .ofWord
  | "in" => some .inWord
  | "instanceof" => some .instanceofWord
  | "typeof" => some .typeofWord
  | "new" => some .newWord
  | "break" => some .breakWord
  | "continue" => some .continueWord
  | "import" => some .importWord
  | "export" => some .exportWord
  | "from" => some .fromWord
  | "as" => some .asWord
  | "default" => some .defaultWord
  | "true" => some .boolean
  | "false" => some .boolean
  | "null" => some .nullWord
  | "undefined" => some .nullWord
  | "this" => some .thisWord
  | _ => none

/-- Whether the text before a word, last character first, ends in a dot that is not part of a spread. -/
def followsDot (before : List Char) : Bool :=
  match before.dropWhile isWhitespace with
  | '.' :: '.' :: '.' :: _ => false
  | '.' :: _ => true
  | _ => false

/-- A word: an identifier or, unless it names a member, a reserved word. -/
def wordLexeme (before : List Char) (c : Char) (cs : List Char) : Lexeme :=
  let word := c :: cs.takeWhile isWordPart
  let kind :=
    if followsDot before then ScriptKind.ident
    else (reservedWord? (String.ofList word)).getD .ident
  ⟨.ok kind, word.length⟩

/-- An operator of `length` characters that an equals sign turns into an assignment. -/
def assignable (length : Nat) (rest : List Char) : Lexeme :=
  if rest.head? == some '=' then ⟨.ok .assign, length + 1⟩ else ⟨.ok .binOp, length⟩

/-- Punctuation and operators. -/
def operatorLexeme? (c : Char) (cs : List Char) : Option Lexeme :=
  let token := fun (kind : ScriptKind) (length : Nat) => some (⟨.ok kind, length⟩ : Lexeme)
  match c, cs with
  | '.', '.' :: '.' :: _ => token .dots 3
  | '.', _ => token .dot 1
  | '{', _ => token .leftBrace 1
  | '}', _ => token .rightBrace 1
  | '[', _ => token .leftBracket 1
  | ']', _ => token .rightBracket 1
  | '(', _ => token .leftParen 1
  | ')', _ => token .rightParen 1
  | ',', _ => token .comma 1
  | ';', _ => token .semicolon 1
  | ':', _ => token .colon 1
  | '?', '.' :: rest => if rest.head?.any isDigit then token .question 1 else token .questionDot 2
  | '?', '?' :: '=' :: _ => token .assign 3
  | '?', '?' :: _ => token .binOp 2
  | '?', _ => token .question 1
  | '=', '>' :: _ => token .arrow 2
  | '=', '=' :: '=' :: _ => token .binOp 3
  | '=', '=' :: _ => token .binOp 2
  | '=', _ => token .assign 1
  | '!', '=' :: '=' :: _ => token .binOp 3
  | '!', '=' :: _ => token .binOp 2
  | '!', _ => token .bang 1
  | '~', _ => token .bang 1
  | '+', '+' :: _ => token .step 2
  | '-', '-' :: _ => token .step 2
  | '+', '=' :: _ => token .assign 2
  | '-', '=' :: _ => token .assign 2
  | '+', _ => token .plus 1
  | '-', _ => token .minus 1
  | '*', '*' :: '=' :: _ => token .assign 3
  | '*', '*' :: _ => token .binOp 2
  | '*', '=' :: _ => token .assign 2
  | '*', _ => token .star 1
  | '&', '&' :: rest => some (assignable 2 rest)
  | '|', '|' :: rest => some (assignable 2 rest)
  | '<', '<' :: rest => some (assignable 2 rest)
  | '>', '>' :: '>' :: rest => some (assignable 3 rest)
  | '>', '>' :: rest => some (assignable 2 rest)
  | '<', '=' :: _ => token .binOp 2
  | '>', '=' :: _ => token .binOp 2
  | '<', _ => token .binOp 1
  | '>', _ => token .binOp 1
  | '/', rest => some (assignable 1 rest)
  | '%', rest => some (assignable 1 rest)
  | '&', rest => some (assignable 1 rest)
  | '|', rest => some (assignable 1 rest)
  | '^', rest => some (assignable 1 rest)
  | _, _ => none

/-- A string, given its quote and the characters after it. -/
def stringLexeme (quote : Char) (cs : List Char) : Lexeme :=
  let n := stringLength quote false cs
  if (cs.drop n).head? == some quote then ⟨.ok .str, n + 2⟩ else ⟨.error "unclosed string", n + 1⟩

/-- A template string, given the characters after its opening backtick. -/
def templateLexeme (cs : List Char) : Lexeme :=
  match templateLength? 0 cs with
  | some n => ⟨.ok .template, n + 1⟩
  | none => ⟨.error "unclosed template string", cs.length + 1⟩

/-! ## The next token -/

/-- The token that starts with a character, given what stands before and after it. -/
def lexeme (before : List Char) (c : Char) (cs : List Char) : Lexeme :=
  if isWhitespace c then ⟨.ok .space, runLength isWhitespace cs + 1⟩
  else if c == '/' && cs.head? == some '/' then
    ⟨.ok .lineComment, runLength (fun d => !isNewline d) cs + 1⟩
  else if c == '/' && cs.head? == some '*' then
    match blockCommentLength? cs.tail with
    | some n => ⟨.ok .blockComment, n + 2⟩
    | none => ⟨.error "unclosed block comment", cs.length + 1⟩
  else if c == '@' || c == '#' then embedLexeme cs
  else if c == '\x22' || c == '\x27' then stringLexeme c cs
  else if c == '\x60' then templateLexeme cs
  else if isDigit c || (c == '.' && cs.head?.any isDigit) then numberLexeme c cs
  else
    match operatorLexeme? c cs with
    | some token => token
    | none =>
      if isWordStart c then wordLexeme before c cs
      else ⟨.error ("the character `" ++ String.singleton c ++ "` is not valid in script"), 1⟩

/-- The lexer after the given number of characters. -/
def Lexer.advance (lx : Lexer) (n : Nat) : Lexer where
  before := (lx.rest.take n).reverse ++ lx.before
  place := lx.place + n
  rest := lx.rest.drop n

/-- The next token, as a node, and the lexer behind it.  At the end the token is empty. -/
def Lexer.next (lx : Lexer) : Node × Lexer :=
  match lx.rest with
  | [] => (.leaf (.script .endOfTokens) "" ⟨lx.place, lx.place⟩, lx)
  | c :: cs =>
    let token := lexeme lx.before c cs
    let text := String.ofList (lx.rest.take token.length)
    let span : Span := ⟨lx.place, lx.place + token.length⟩
    let node :=
      match token.kind with
      | .ok kind => Node.leaf (.script kind) text span
      | .error message => Node.fault message [] text span
    (node, lx.advance token.length)

end ComponentMarkup.Script
