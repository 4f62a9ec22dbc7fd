import ComponentMarkup.Program.Expr

/-!
# Simplified expressions

A document is rendered piece by piece, without a look at what stands beside a piece, so the expression has
spreads of array and object literals, scopes without statements and runs of string literals.  Simplifying
removes them, from the inside out.  What takes the place of another expression also takes its origin, unless it
has one.
-/

namespace ComponentMarkup.Program

/-- Joins string literals that stand side by side.  The first one's origin is kept. -/
def mergeStrings : List Elem → List Elem
  | [] => []
  | elem :: elems =>
    match elem, mergeStrings elems with
    | .item (.mk o (.str s)), .item (.mk _ (.str t)) :: rest => .item (.mk o (.str (s ++ t))) :: rest
    | elem, rest => elem :: rest

/-- Joins string literals from the given number on. -/
def mergeStringsFrom (n : Nat) (elems : List Elem) : List Elem :=
  elems.take n ++ mergeStrings (elems.drop n)

/-- Whether an expression is the element factory. -/
def isFactory (e : Expr) : Bool :=
  match e.form with
  | .ident name => name == Expr.factoryName
  | _ => false

/-- The elements that a spread stands for. -/
def spreadElems (e : Expr) : List Elem :=
  match e.form with
  | .array elems => elems
  | _ => [.spread e]

/-- The members that a spread stands for. -/
def spreadMembers (e : Expr) : List Member :=
  match e.form with
  | .object members => members
  | _ => [.spread e]

/-- The object with the given members, or what is spread if that is all there is to it. -/
def objectOf (origin : Option Nat) (members : List Member) : Expr :=
  match members with
  | [.spread e] => e.inherit origin
  | _ => .mk origin (.object members)

/-- A call; the children of an element are joined, its name and properties are not. -/
def callOf (origin : Option Nat) (callee : Expr) (arguments : List Elem) : Expr :=
  .mk origin (.call callee (if isFactory callee then mergeStringsFrom 2 arguments else arguments))

/-- An expression in the scope of statements, or just the expression if there are none. -/
def scopeOf (origin : Option Nat) (statements : List Code) (body : Expr) : Expr :=
  if statements.isEmpty then body.inherit origin else .mk origin (.scope statements body)

mutual

/-- The simplified expression. -/
def simplify : Expr → Expr
  | .mk origin form => simplifyForm origin form

/-- The simplified expression of a form and an origin. -/
def simplifyForm (origin : Option Nat) : Form → Expr
  | .null => .mk origin .null
  | .bool b => .mk origin (.bool b)
  | .str s => .mk origin (.str s)
  | .ident name => .mk origin (.ident name)
  | .index e n => .mk origin (.index (simplify e) n)
  | .array elems => .mk origin (.array (mergeStrings (simplifyElems elems)))
  | .object members => objectOf origin (simplifyMembers members)
  | .call callee arguments => callOf origin (simplify callee) (simplifyElems arguments)
  | .arrow parameter body => .mk origin (.arrow parameter (simplify body))
  | .scope statements body => scopeOf origin (simplifyStatements statements) (simplify body)
  | .code pieces => .mk origin (.code (simplifyCode pieces))

/-- An element, or the elements that it stands for. -/
def simplifyElem : Elem → List Elem
  | .item e => [.item (simplify e)]
  | .spread e => spreadElems (simplify e)

/-- Simplified elements. -/
def simplifyElems : List Elem → List Elem
  | [] => []
  | elem :: elems => simplifyElem elem ++ simplifyElems elems

/-- A member, or the members that it stands for. -/
def simplifyMember : Member → List Member
  | .pair key e => [.pair key (simplify e)]
  | .spread e => spreadMembers (simplify e)
  | .code pieces => [.code (simplifyCode pieces)]

/-- Simplified members. -/
def simplifyMembers : List Member → List Member
  | [] => []
  | member :: members => simplifyMember member ++ simplifyMembers members

/-- A piece of script with a simplified expression. -/
def simplifyPiece : Piece → Piece
  | .text t o => .text t o
  | .expr e => .expr (simplify e)

/-- Script with simplified expressions. -/
def simplifyCode : List Piece → List Piece
  | [] => []
  | piece :: pieces => simplifyPiece piece :: simplifyCode pieces

/-- Statements with simplified expressions. -/
def simplifyStatements : List (List Piece) → List (List Piece)
  | [] => []
  | code :: statements => simplifyCode code :: simplifyStatements statements

end

end ComponentMarkup.Program
