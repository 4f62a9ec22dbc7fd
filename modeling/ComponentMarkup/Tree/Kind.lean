/-!
# Kinds of nodes

Every node of a tree has a kind.  The kinds of documents and of scripts are listed separately, each in
a fixed order that gives its rank; a node that holds a fault has the one kind both share.  A kind has
a label, by which trees are written out, and a title, by which messages call it.
-/

namespace ComponentMarkup.Tree

/-- The kinds of nodes of a document. -/
inductive MarkupKind where
  | document | inline | space | newline | text | escape | special | lineComment | commentBlock
  | paragraph | heading | headingMarker | bulletList | orderedList | listItem | listMarker
  | taskMarker | blockquote | quoteMarker | table | tableHeader | tableDelimiter | tableRow
  | tableCell | tablePipe | fencedCode | codeFence | codeInfo | codeText | script | scriptMark
  | scriptFence | scriptBody | attributeLine | attributeMark | attributeKey | attributeValue
  | blockComponent | inlineComponent | interpolation | reference | sigil | commandName
  | dynamicName | nameExpr | attributeList | inlineAttributes | contentBlock | lineContent
  | blockBody | markupHole | verbatim | verbatimDelim | verbatimText | mathInline | mathBlock
  | mathDelim | mathContent | emph | strong | strikethrough | emphMark | inlineCode | codeMark
  | link | image | autolink | linkMark | url | colon | leftBrace | rightBrace | leftBracket
  | rightBracket | leftParen | rightParen
  deriving DecidableEq, Repr, Inhabited

namespace MarkupKind

/-- Every kind, in the order of rank. -/
def all : List MarkupKind := [
    .document, .inline, .space, .newline, .text, .escape, .special, .lineComment, .commentBlock,
    .paragraph, .heading, .headingMarker, .bulletList, .orderedList, .listItem, .listMarker,
    .taskMarker, .blockquote, .quoteMarker, .table, .tableHeader, .tableDelimiter, .tableRow,
    .tableCell, .tablePipe, .fencedCode, .codeFence, .codeInfo, .codeText, .script, .scriptMark,
    .scriptFence, .scriptBody, .attributeLine, .attributeMark, .attributeKey, .attributeValue,
    .blockComponent, .inlineComponent, .interpolation, .reference, .sigil, .commandName,
    .dynamicName, .nameExpr, .attributeList, .inlineAttributes, .contentBlock, .lineContent,
    .blockBody, .markupHole, .verbatim, .verbatimDelim, .verbatimText, .mathInline, .mathBlock,
    .mathDelim, .mathContent, .emph, .strong, .strikethrough, .emphMark, .inlineCode, .codeMark,
    .link, .image, .autolink, .linkMark, .url, .colon, .leftBrace, .rightBrace, .leftBracket,
    .rightBracket, .leftParen, .rightParen]

/-- The rank of a kind: its place in the list of all kinds. -/
def rank (k : MarkupKind) : Nat :=
  all.idxOf k

/-- The label of a kind in a written tree. -/
def label : MarkupKind → String
  | .document => "Document"
  | .inline => "Inline"
  | .space => "Space"
  | .newline => "Newline"
  | .text => "Text"
  | .escape => "Escape"
  | .special => "Special"
  | .lineComment => "LineComment"
  | .commentBlock => "CommentBlock"
  | .paragraph => "Paragraph"
  | .heading => "Heading"
  | .headingMarker => "HeadingMarker"
  | .bulletList => "BulletList"
  | .orderedList => "OrderedList"
  | .listItem => "ListItem"
  | .listMarker => "ListMarker"
  | .taskMarker => "TaskMarker"
  | .blockquote => "Blockquote"
  | .quoteMarker => "QuoteMarker"
  | .table => "Table"
  | .tableHeader => "TableHeader"
  | .tableDelimiter => "TableDelimiter"
  | .tableRow => "TableRow"
  | .tableCell => "TableCell"
  | .tablePipe => "TablePipe"
  | .fencedCode => "FencedCode"
  | .codeFence => "CodeFence"
  | .codeInfo => "CodeInfo"
  | .codeText => "CodeText"
  | .script => "Script"
  | .scriptMark => "ScriptMark"
  | .scriptFence => "ScriptFence"
  | .scriptBody => "ScriptBody"
  | .attributeLine => "Attribute"
  | .attributeMark => "AttributeMark"
  | .attributeKey => "AttributeKey"
  | .attributeValue => "AttributeValue"
  | .blockComponent => "BlockComponent"
  | .inlineComponent => "InlineComponent"
  | .interpolation => "Interpolation"
  | .reference => "Reference"
  | .sigil => "Sigil"
  | .commandName => "CommandName"
  | .dynamicName => "DynamicName"
  | .nameExpr => "NameExpr"
  | .attributeList => "AttributeList"
  | .inlineAttributes => "InlineAttributes"
  | .contentBlock => "ContentBlock"
  | .lineContent => "LineContent"
  | .blockBody => "BlockBody"
  | .markupHole => "MarkupHole"
  | .verbatim => "Verbatim"
  | .verbatimDelim => "VerbatimDelim"
  | .verbatimText => "VerbatimText"
  | .mathInline => "MathInline"
  | .mathBlock => "MathBlock"
  | .mathDelim => "MathDelim"
  | .mathContent => "MathContent"
  | .emph => "Emph"
  | .strong => "Strong"
  | .strikethrough => "Strikethrough"
  | .emphMark => "EmphMark"
  | .inlineCode => "InlineCode"
  | .codeMark => "CodeMark"
  | .link => "Link"
  | .image => "Image"
  | .autolink => "Autolink"
  | .linkMark => "LinkMark"
  | .url => "Url"
  | .colon => "Colon"
  | .leftBrace => "LeftBrace"
  | .rightBrace => "RightBrace"
  | .leftBracket => "LeftBracket"
  | .rightBracket => "RightBracket"
  | .leftParen => "LeftParen"
  | .rightParen => "RightParen"

/-- What messages call a node of the kind. -/
def title : MarkupKind → String
  | .document => "document"
  | .inline => "inline content"
  | .space => "space"
  | .newline => "newline"
  | .text => "text"
  | .escape => "escape sequence"
  | .special => "special"
  | .lineComment => "line comment"
  | .commentBlock => "comment block"
  | .paragraph => "paragraph"
  | .heading => "heading"
  | .headingMarker => "heading marker"
  | .bulletList => "bullet list"
  | .orderedList => "ordered list"
  | .listItem => "list item"
  | .listMarker => "list marker"
  | .taskMarker => "task marker"
  | .blockquote => "blockquote"
  | .quoteMarker => "quote marker"
  | .table => "table"
  | .tableHeader => "table header"
  | .tableDelimiter => "table delimiter row"
  | .tableRow => "table row"
  | .tableCell => "table cell"
  | .tablePipe => "table pipe"
  | .fencedCode => "fenced code"
  | .codeFence => "code fence"
  | .codeInfo => "code info"
  | .codeText => "code text"
  | .script => "script"
  | .scriptMark => "script mark"
  | .scriptFence => "script fence"
  | .scriptBody => "script body"
  | .attributeLine => "attribute"
  | .attributeMark => "attribute mark"
  | .attributeKey => "attribute key"
  | .attributeValue => "attribute value"
  | .blockComponent => "block component"
  | .inlineComponent => "inline component"
  | .interpolation => "interpolation"
  | .reference => "reference"
  | .sigil => "command sigil"
  | .commandName => "command name"
  | .dynamicName => "dynamic name"
  | .nameExpr => "name expression"
  | .attributeList => "attribute list"
  | .inlineAttributes => "inline attributes"
  | .contentBlock => "content block"
  | .lineContent => "line content"
  | .blockBody => "block body"
  | .markupHole => "markup hole"
  | .verbatim => "verbatim"
  | .verbatimDelim => "verbatim delimiter"
  | .verbatimText => "verbatim text"
  | .mathInline => "inline math"
  | .mathBlock => "math block"
  | .mathDelim => "math delimiter"
  | .mathContent => "math content"
  | .emph => "emphasis"
  | .strong => "strong emphasis"
  | .strikethrough => "strikethrough"
  | .emphMark => "emphasis mark"
  | .inlineCode => "inline code"
  | .codeMark => "code mark"
  | .link => "link"
  | .image => "image"
  | .autolink => "autolink"
  | .linkMark => "link mark"
  | .url => "url"
  | .colon => "colon"
  | .leftBrace => "opening brace"
  | .rightBrace => "closing brace"
  | .leftBracket => "opening bracket"
  | .rightBracket => "closing bracket"
  | .leftParen => "opening paren"
  | .rightParen => "closing paren"

end MarkupKind

/-- The kinds of nodes of a script. -/
inductive ScriptKind where
  | statements | expression | attributes | space | lineComment | blockComment | embed | ident
  | number | str | template | letWord | constWord | varWord | functionWord | asyncWord
  | awaitWord | returnWord | ifWord | elseWord | forWord | whileWord | ofWord | inWord
  | instanceofWord | typeofWord | newWord | breakWord | continueWord | importWord | exportWord
  | fromWord | asWord | defaultWord | boolean | nullWord | thisWord | leftBrace | rightBrace
  | leftBracket | rightBracket | leftParen | rightParen | comma | semicolon | colon | dot
  | questionDot | dots | question | arrow | assign | binOp | bang | plus | minus | step | star
  | varDecl | funcDecl | importDecl | exportDecl | returnStmt | ifStmt | forStmt | whileStmt
  | jumpStmt | exprStmt | block | params | args | array | object | property | spread | paren
  | member | index | call | newExpr | unary | postfixExpr | binary | ternary | assignment
  | arrowFunc | funcExpr | endOfTokens
  deriving DecidableEq, Repr, Inhabited

namespace ScriptKind

/-- Every kind, in the order of rank. -/
def all : List ScriptKind := [
    .statements, .expression, .attributes, .space, .lineComment, .blockComment, .embed, .ident,
    .number, .str, .template, .letWord, .constWord, .varWord, .functionWord, .asyncWord,
    .awaitWord, .returnWord, .ifWord, .elseWord, .forWord, .whileWord, .ofWord, .inWord,
    .instanceofWord, .typeofWord, .newWord, .breakWord, .continueWord, .importWord, .exportWord,
    .fromWord, .asWord, .defaultWord, .boolean, .nullWord, .thisWord, .leftBrace, .rightBrace,
    .leftBracket, .rightBracket, .leftParen, .rightParen, .comma, .semicolon, .colon, .dot,
    .questionDot, .dots, .question, .arrow, .assign, .binOp, .bang, .plus, .minus, .step, .star,
    .varDecl, .funcDecl, .importDecl, .exportDecl, .returnStmt, .ifStmt, .forStmt, .whileStmt,
    .jumpStmt, .exprStmt, .block, .params, .args, .array, .object, .property, .spread, .paren,
    .member, .index, .call, .newExpr, .unary, .postfixExpr, .binary, .ternary, .assignment,
    .arrowFunc, .funcExpr, .endOfTokens]

/-- The rank of a kind: its place in the list of all kinds. -/
def rank (k : ScriptKind) : Nat :=
  all.idxOf k

/-- The label of a kind in a written tree, without the mark of script kinds. -/
def label : ScriptKind → String
  | .statements => "Statements"
  | .expression => "Expression"
  | .attributes => "Attributes"
  | .space => "Space"
  | .lineComment => "LineComment"
  | .blockComment => "BlockComment"
  | .embed => "Embed"
  | .ident => "Ident"
  | .number => "Number"
  | .str => "Str"
  | .template => "Template"
  | .letWord => "Let"
  | .constWord => "Const"
  | .varWord => "Var"
  | .functionWord => "Function"
  | .asyncWord => "Async"
  | .awaitWord => "Await"
  | .returnWord => "Return"
  | .ifWord => "If"
  | .elseWord => "Else"
  | .forWord => "For"
  | .whileWord => "While"
  | .ofWord => "Of"
  | .inWord => "In"
  | .instanceofWord => "Instanceof"
  | .typeofWord => "Typeof"
  | .newWord => "New"
  | .breakWord => "Break"
  | .continueWord => "Continue"
  | .importWord => "Import"
  | .exportWord => "Export"
  | .fromWord => "From"
  | .asWord => "As"
  | .defaultWord => "Default"
  | .boolean => "Bool"
  | .nullWord => "Null"
  | .thisWord => "This"
  | .leftBrace => "LeftBrace"
  | .rightBrace => "RightBrace"
  | .leftBracket => "LeftBracket"
  | .rightBracket => "RightBracket"
  | .leftParen => "LeftParen"
  | .rightParen => "RightParen"
  | .comma => "Comma"
  | .semicolon => "Semicolon"
  | .colon => "Colon"
  | .dot => "Dot"
  | .questionDot => "QuestionDot"
  | .dots => "Dots"
  | .question => "Question"
  | .arrow => "Arrow"
  | .assign => "Assign"
  | .binOp => "BinOp"
  | .bang => "Bang"
  | .plus => "Plus"
  | .minus => "Minus"
  | .step => "Step"
  | .star => "Star"
  | .varDecl => "VarDecl"
  | .funcDecl => "FuncDecl"
  | .importDecl => "ImportDecl"
  | .exportDecl => "ExportDecl"
  | .returnStmt => "ReturnStmt"
  | .ifStmt => "IfStmt"
  | .forStmt => "ForStmt"
  | .whileStmt => "WhileStmt"
  | .jumpStmt => "JumpStmt"
  | .exprStmt => "ExprStmt"
  | .block => "Block"
  | .params => "Params"
  | .args => "Args"
  | .array => "Array"
  | .object => "Object"
  | .property => "Property"
  | .spread => "Spread"
  | .paren => "Paren"
  | .member => "Member"
  | .index => "Index"
  | .call => "Call"
  | .newExpr => "NewExpr"
  | .unary => "Unary"
  | .postfixExpr => "Postfix"
  | .binary => "Binary"
  | .ternary => "Ternary"
  | .assignment => "Assignment"
  | .arrowFunc => "ArrowFunc"
  | .funcExpr => "FuncExpr"
  | .endOfTokens => "End"

/-- What messages call a node of the kind. -/
def title : ScriptKind → String
  | .statements => "statements"
  | .expression => "expression"
  | .attributes => "attributes"
  | .space => "space"
  | .lineComment => "line comment"
  | .blockComment => "block comment"
  | .embed => "document command"
  | .ident => "identifier"
  | .number => "number"
  | .str => "string"
  | .template => "template string"
  | .letWord => "keyword `let`"
  | .constWord => "keyword `const`"
  | .varWord => "keyword `var`"
  | .functionWord => "keyword `function`"
  | .asyncWord => "keyword `async`"
  | .awaitWord => "keyword `await`"
  | .returnWord => "keyword `return`"
  | .ifWord => "keyword `if`"
  | .elseWord => "keyword `else`"
  | .forWord => "keyword `for`"
  | .whileWord => "keyword `while`"
  | .ofWord => "keyword `of`"
  | .inWord => "keyword `in`"
  | .instanceofWord => "keyword `instanceof`"
  | .typeofWord => "keyword `typeof`"
  | .newWord => "keyword `new`"
  | .breakWord => "keyword `break`"
  | .continueWord => "keyword `continue`"
  | .importWord => "keyword `import`"
  | .exportWord => "keyword `export`"
  | .fromWord => "keyword `from`"
  | .asWord => "keyword `as`"
  | .defaultWord => "keyword `default`"
  | .boolean => "boolean"
  | .nullWord => "null"
  | .thisWord => "keyword `this`"
  | .leftBrace => "opening brace"
  | .rightBrace => "closing brace"
  | .leftBracket => "opening bracket"
  | .rightBracket => "closing bracket"
  | .leftParen => "opening paren"
  | .rightParen => "closing paren"
  | .comma => "comma"
  | .semicolon => "semicolon"
  | .colon => "colon"
  | .dot => "dot"
  | .questionDot => "optional chain"
  | .dots => "spread"
  | .question => "question mark"
  | .arrow => "arrow"
  | .assign => "assignment operator"
  | .binOp => "binary operator"
  | .bang => "prefix operator"
  | .plus => "plus"
  | .minus => "minus"
  | .step => "increment operator"
  | .star => "star"
  | .varDecl => "variable declaration"
  | .funcDecl => "function declaration"
  | .importDecl => "import declaration"
  | .exportDecl => "export declaration"
  | .returnStmt => "return statement"
  | .ifStmt => "if statement"
  | .forStmt => "for loop"
  | .whileStmt => "while loop"
  | .jumpStmt => "jump statement"
  | .exprStmt => "expression statement"
  | .block => "block"
  | .params => "parameters"
  | .args => "arguments"
  | .array => "array"
  | .object => "object"
  | .property => "property"
  | .spread => "spread element"
  | .paren => "parenthesized expression"
  | .member => "member access"
  | .index => "index access"
  | .call => "call"
  | .newExpr => "new expression"
  | .unary => "unary expression"
  | .postfixExpr => "postfix expression"
  | .binary => "binary expression"
  | .ternary => "conditional expression"
  | .assignment => "assignment"
  | .arrowFunc => "arrow function"
  | .funcExpr => "function expression"
  | .endOfTokens => "end of tokens"

end ScriptKind

/-- The kind of any node. -/
inductive Kind where
  /-- A kind of documents. -/
  | markup (kind : MarkupKind)
  /-- A kind of scripts. -/
  | script (kind : ScriptKind)
  /-- A fault, of either language. -/
  | fault
  deriving DecidableEq, Repr, Inhabited

namespace Kind

/-- The name of the grammar that a kind belongs to. -/
def grammar? : Kind → Option String
  | .markup _ => some "markup"
  | .script _ => some "script"
  | .fault => none

/-- Whether a node of the kind carries no meaning. -/
def isTrivia : Kind → Bool
  | .markup .space | .markup .lineComment | .markup .commentBlock => true
  | .script .space | .script .lineComment | .script .blockComment => true
  | _ => false

/-- The kind of documents, if it is one. -/
def markup? : Kind → Option MarkupKind
  | .markup kind => some kind
  | _ => none

/-- The kind of scripts, if it is one. -/
def script? : Kind → Option ScriptKind
  | .script kind => some kind
  | _ => none

/-- The rank of a kind within its grammar; faults have the greatest number of 16 bits. -/
def rank : Kind → Nat
  | .markup kind => kind.rank
  | .script kind => kind.rank
  | .fault => 65535

/-- The label of a kind in a written tree. -/
def label : Kind → String
  | .markup kind => kind.label
  | .script kind => "Script::" ++ kind.label
  | .fault => "Error"

/-- What messages call a node of the kind. -/
def title : Kind → String
  | .markup kind => kind.title
  | .script kind => kind.title
  | .fault => "syntax error"

/-- The kind with a given label. -/
def ofLabel? (label : String) : Option Kind :=
  let kinds := MarkupKind.all.map Kind.markup ++ ScriptKind.all.map Kind.script ++ [.fault]
  kinds.find? fun kind => kind.label == label

end Kind

/-- The kinds that the nodes of one grammar have. -/
structure Catalog where
  /-- The name of the grammar. -/
  grammar : String
  /-- Its kinds, in the order of rank. -/
  kinds : List Kind

namespace Catalog

/-- The kinds of documents. -/
def markup : Catalog where
  grammar := "markup"
  kinds := MarkupKind.all.map .markup

/-- The kinds of scripts. -/
def script : Catalog where
  grammar := "script"
  kinds := ScriptKind.all.map .script

/-- The kind with a given rank. -/
def get? (catalog : Catalog) (rank : Nat) : Option Kind :=
  catalog.kinds[rank]?

/-- The kind with a given title. -/
def lookup? (catalog : Catalog) (title : String) : Option Kind :=
  catalog.kinds.find? fun kind => kind.title == title

end Catalog

end ComponentMarkup.Tree
