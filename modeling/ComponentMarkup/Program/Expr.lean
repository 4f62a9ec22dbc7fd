import ComponentMarkup.Text.Character

/-!
# Expressions of a program

A document becomes an expression that builds it: calls of an element factory, literals, and script that the
author wrote.  Script is never taken apart: it is kept as pieces of its text, with expressions in the place of
embedded commands.  An expression may know the offset in the document that it stems from.
-/

namespace ComponentMarkup.Program

open ComponentMarkup.Text

mutual

/-- An expression, and the byte offset in the document that it stems from, if it stems from one node. -/
inductive Expr where
  | mk (origin : Option Nat) (form : Form)

/-- What an expression is. -/
inductive Form where
  /-- The null value. -/
  | null
  /-- A truth value. -/
  | bool (value : Bool)
  /-- A string literal. -/
  | str (text : String)
  /-- A variable. -/
  | ident (name : String)
  /-- An element of an expression by its number. -/
  | index (object : Expr) (number : Nat)
  /-- An array literal. -/
  | array (elems : List Elem)
  /-- An object literal. -/
  | object (members : List Member)
  /-- A call. -/
  | call (callee : Expr) (arguments : List Elem)
  /-- A function of one parameter. -/
  | arrow (parameter : String) (body : Expr)
  /-- Statements, and an expression in their scope. -/
  | scope (statements : List (List Piece)) (body : Expr)
  /-- Script. -/
  | code (pieces : List Piece)

/-- An element of an array literal or an argument of a call. -/
inductive Elem where
  /-- One value. -/
  | item (expr : Expr)
  /-- The elements of an array. -/
  | spread (expr : Expr)

/-- A member of an object literal. -/
inductive Member where
  /-- A key and its value. -/
  | pair (key : String) (value : Expr)
  /-- The members of another object. -/
  | spread (expr : Expr)
  /-- Members written as script. -/
  | code (pieces : List Piece)

/-- A piece of script. -/
inductive Piece where
  /-- Text, and the byte offset in the document that it was copied from. -/
  | text (text : String) (origin : Option Nat)
  /-- An expression in the place of an embedded command. -/
  | expr (expr : Expr)

end

/-- Script as pieces of its text and expressions between them. -/
abbrev Code := List Piece

namespace Expr

instance : Inhabited Expr := ⟨.mk none .null⟩

/-- What an expression is. -/
def form : Expr → Form
  | mk _ f => f

/-- The offset that an expression stems from. -/
def origin : Expr → Option Nat
  | mk o _ => o

/-- An expression that stems from no node. -/
def bare (f : Form) : Expr :=
  mk none f

/-- The expression with another offset that it stems from. -/
def located (e : Expr) (origin : Nat) : Expr :=
  mk (some origin) e.form

/-- The expression with an offset that it stems from, unless it has one already. -/
def inherit (e : Expr) (origin : Option Nat) : Expr :=
  mk (e.origin.or origin) e.form

/-- The null value. -/
def null : Expr := bare .null

/-- A truth value. -/
def bool (b : Bool) : Expr := bare (.bool b)

/-- A string literal. -/
def str (s : String) : Expr := bare (.str s)

/-- A variable. -/
def ident (name : String) : Expr := bare (.ident name)

/-- An array literal. -/
def array (elems : List Elem) : Expr := bare (.array elems)

/-- An object literal. -/
def object (members : List Member) : Expr := bare (.object members)

/-- A call. -/
def call (callee : Expr) (arguments : List Elem) : Expr := bare (.call callee arguments)

/-- The name of the element factory in a program. -/
def factoryName : String := "el"

/-- The name of the component that only groups its children. -/
def fragmentName : String := "Fragment"

/-- The name of the arguments that positional commands refer to. -/
def argumentsName : String := "args"

/-- An element: a call of the factory with what is built, its properties and its children. -/
def element (name properties : Expr) (children : List Elem) : Expr :=
  call (ident factoryName) (.item name :: .item properties :: children)

/-- An element of a plain name without properties. -/
def tag (name : String) (children : List Elem) : Expr :=
  element (str name) (object []) children

/-- Whether an expression is a string literal. -/
def isStr (e : Expr) : Bool :=
  match e.form with
  | .str _ => true
  | _ => false

end Expr

namespace Code

/-- Whether script is nothing but white space. -/
def isBlank (code : Code) : Bool :=
  code.all fun piece =>
    match piece with
    | .text t _ => isAllWhite t.toList
    | .expr _ => false

/-- Adds text that was copied from an offset. -/
def pushToken (code : Code) (text : String) (origin : Nat) : Code :=
  code ++ [.text text (some origin)]

/-- Adds text of no origin to the last piece, or as a piece of its own behind an expression. -/
def pushText : Code → String → Code
  | [], text => [.text text none]
  | [.text t o], text => [.text (t ++ text) o]
  | piece :: code, text => piece :: pushText code text

/-- Script without the white space at its start. -/
def trimStart : Code → Code
  | .text t o :: code =>
    let rest := Text.trimStart t.toList
    if rest.isEmpty then trimStart code else .text (String.ofList rest) o :: code
  | code => code

/-- Script without the white space at its end. -/
def trimEnd : Code → Code
  | [] => []
  | piece :: code =>
    match trimEnd code, piece with
    | [], .text t o =>
      let rest := Text.trimEnd t.toList
      if rest.isEmpty then [] else [.text (String.ofList rest) o]
    | code, piece => piece :: code

/-- Script without the white space at both ends. -/
def trim (code : Code) : Code :=
  trimStart (trimEnd code)

/-- Script without a comma at its end. -/
def dropComma : Code → Code
  | [] => []
  | [.text t o] =>
    if t.toList.getLast? == some ',' then [.text (String.ofList t.toList.dropLast) o] else [.text t o]
  | piece :: code => piece :: dropComma code

/-- Whether script ends in a dot, so that the next word names a member. -/
def endsInDot : Code → Bool
  | [] => false
  | [.text t _] =>
    let last := (t.toList.reverse.dropWhile isWhitespace).take 3
    last.head? == some '.' && last != ['.', '.', '.']
  | [.expr _] => false
  | _ :: code => endsInDot code

end Code

end ComponentMarkup.Program
