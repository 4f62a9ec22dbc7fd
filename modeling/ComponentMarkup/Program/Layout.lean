import ComponentMarkup.Program.Expr
import ComponentMarkup.Program.Literal

/-!
# The text of a program

An expression is laid out as chunks: stretches of text, and marks that tell which offset of the document the
text behind them stems from.  Joined, the texts are the program; the marks become its mappings.
-/

namespace ComponentMarkup.Program

open ComponentMarkup.Text

/-- A part of a program's text. -/
inductive Chunk where
  /-- Text. -/
  | text (text : String)
  /-- The next character stems from this offset of the document. -/
  | mark (origin : Nat)
  deriving DecidableEq, Repr

/-- The mark for an origin, if there is one. -/
def marks (origin : Option Nat) : List Chunk :=
  (origin.map Chunk.mark).toList

/-- Puts a separator between laid out parts. -/
def separated (separator : String) : List (List Chunk) → List Chunk
  | [] => []
  | [part] => part
  | part :: parts => part ++ .text separator :: separated separator parts

/-- Puts parentheses around what would not hold together. -/
def parenthesized (needed : Bool) (chunks : List Chunk) : List Chunk :=
  if needed then .text "(" :: chunks ++ [.text ")"] else chunks

/-- Whether an expression needs parentheses as an operand: script and functions do. -/
def bindsLoosely (e : Expr) : Bool :=
  match e.form with
  | .code _ | .arrow _ _ => true
  | _ => false

/-- Whether an expression needs parentheses as the body of a function: an object would be taken for a
block. -/
def looksLikeBlock (e : Expr) : Bool :=
  match e.form with
  | .object _ => true
  | _ => false

/-- The text of chunks. -/
def chunkText (chunks : List Chunk) : String :=
  String.join (chunks.map fun
    | .text t => t
    | .mark _ => "")

/-- A statement on a line of its own, with a semicolon unless it has one. -/
def statementLine (chunks : List Chunk) : List Chunk :=
  if (trimEnd (chunkText chunks).toList).getLast? == some ';' then chunks ++ [.text "\n"]
  else chunks ++ [.text ";\n"]

mutual

/-- Lays out an expression. -/
def Expr.layout : Expr → List Chunk
  | .mk origin form => marks origin ++ form.layout

/-- Lays out a form. -/
def Form.layout : Form → List Chunk
  | .null => [.text "null"]
  | .bool b => [.text (if b then "true" else "false")]
  | .str s => [.text (literal s)]
  | .ident name => [.text name]
  | .index e n => parenthesized (bindsLoosely e) e.layout ++ [.text ("[" ++ toString n ++ "]")]
  | .array elems => .text "[" :: separated ", " (elemLayouts elems) ++ [.text "]"]
  | .object members =>
    .text "\x7b" :: separated ", " (memberLayouts members) ++ [.text "\x7d"]
  | .call callee arguments =>
    parenthesized (bindsLoosely callee) callee.layout ++
      .text "(" :: separated ", " (elemLayouts arguments) ++ [.text ")"]
  | .arrow parameter body =>
    .text (parameter ++ " => ") :: parenthesized (looksLikeBlock body) body.layout
  | .scope statements body =>
    .text "(() => \x7b\n" :: statementLayouts statements ++
      .text "return " :: body.layout ++ [.text ";\n\x7d)()"]
  | .code pieces => codeLayout pieces

/-- Lays out an element. -/
def Elem.layout : Elem → List Chunk
  | .item e => e.layout
  | .spread e => .text "..." :: parenthesized (bindsLoosely e) e.layout

/-- Lays out each element. -/
def elemLayouts : List Elem → List (List Chunk)
  | [] => []
  | elem :: elems => elem.layout :: elemLayouts elems

/-- Lays out a member. -/
def Member.layout : Member → List Chunk
  | .pair key e => .text (objectKey key ++ ": ") :: e.layout
  | .spread e => .text "..." :: parenthesized (bindsLoosely e) e.layout
  | .code pieces => codeLayout pieces

/-- Lays out each member. -/
def memberLayouts : List Member → List (List Chunk)
  | [] => []
  | member :: members => member.layout :: memberLayouts members

/-- Lays out a piece of script. -/
def Piece.layout : Piece → List Chunk
  | .text t o => marks o ++ [.text t]
  | .expr e => parenthesized (bindsLoosely e) e.layout

/-- Lays out script. -/
def codeLayout : List Piece → List Chunk
  | [] => []
  | piece :: pieces => piece.layout ++ codeLayout pieces

/-- Lays out statements, each on a line of its own. -/
def statementLayouts : List (List Piece) → List Chunk
  | [] => []
  | code :: statements => statementLine (codeLayout code) ++ statementLayouts statements

end

end ComponentMarkup.Program
