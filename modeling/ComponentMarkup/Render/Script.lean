import ComponentMarkup.Document.View
import ComponentMarkup.Render.Needs

/-!
# Rendering scripts

Script is copied token by token; only the commands embedded in it become expressions.  Comments are left out,
a block comment leaving a space.  The imports and exports of a script are gathered for the program around the
document; its other statements stay where they are.

A command embedded in script is rendered by a function that the rules here get as an argument.
-/

namespace ComponentMarkup.Render

open ComponentMarkup.Text ComponentMarkup.Tree ComponentMarkup.Document ComponentMarkup.Program

/-- As what a node of a document is rendered. -/
inductive Role where
  /-- As a block. -/
  | block
  /-- As inline content. -/
  | inline
  deriving DecidableEq, Repr

/-- Renders a node.  Nodes without meaning in their role give nothing. -/
abbrev Renderer := Role → Node → Rendered (Option Expr)

/-- Renders inline nodes. -/
def inlineExprs (render : Renderer) (nodes : List Node) : Rendered (List Expr) := do
  let exprs ← Rendered.forAll (render .inline) nodes
  return exprs.filterMap id

/-- Renders inline nodes as the children of an element. -/
def inlineElems (render : Renderer) (nodes : List Node) : Rendered (List Elem) := do
  let exprs ← inlineExprs render nodes
  return exprs.map Elem.item

/-- The sequence of a document that a node hosts. -/
def hostedSequence? (n : Node) : Option (List Node) :=
  n.hostedRoot?.bind fun root =>
    match view? root with
    | some (.sequence nodes) => some nodes
    | _ => none

/-- Renders a command embedded in script.  One that was not read is a string. -/
def embedded (render : Renderer) (n : Node) : Rendered Expr :=
  match hostedSequence? n with
  | none => pure ((Expr.str n.text).located n.start)
  | some nodes => do
    match (← inlineExprs render nodes) with
    | [] => return (Expr.str "").located n.start
    | [e] => return e
    | exprs =>
      return (Expr.element (.ident Expr.fragmentName) (.object []) (exprs.map Elem.item)).located n.start

/-! ## Copying tokens -/

/-- Adds a token without children to the script copied so far. -/
def copyToken (kind : Kind) (text : String) (start : Nat) (code : Code) : Rendered Code :=
  if text.isEmpty then pure code
  else
    match kind with
    | .script .space => pure (code.pushText text)
    | .script .lineComment => pure code
    | .script .blockComment => pure (code.pushText " ")
    | .script .ident => do
      if !code.endsInDot then Rendered.gather { names := [text] }
      return code.pushToken text start
    | _ => pure (code.pushToken text start)

mutual

/-- Adds the tokens of a subtree to the script copied so far. -/
def copyTree (render : Renderer) : Node → Code → Rendered Code
  | .leaf kind text span, code =>
    if kind == .script .embed then do
      let e ← embedded render (.leaf kind text span)
      return code ++ [.expr e]
    else copyToken kind text span.start code
  | .inner kind span host count faulty children, code =>
    if kind == .script .embed then do
      let e ← embedded render (.inner kind span host count faulty children)
      return code ++ [.expr e]
    else copyTrees render children code
  | .fault _ _ text span, code => copyToken .fault text span.start code

/-- Adds the tokens of several subtrees to the script copied so far. -/
def copyTrees (render : Renderer) : List Node → Code → Rendered Code
  | [], code => pure code
  | n :: ns, code => do
    let code ← copyTree render n code
    copyTrees render ns code

end

/-! ## Statements -/

/-- The text between the quotes of a string. -/
def unquoted (text : String) : String :=
  String.ofList (text.toList.drop 1).dropLast

/-- The names that the tokens of an import bind: identifiers that are not renamed. -/
def boundNames : List Node → List String
  | [] => []
  | [n] => if n.isScript .ident then [n.text] else []
  | n :: next :: ns =>
    let others := boundNames (next :: ns)
    if n.isScript .ident && !next.isScript .asWord then n.text :: others else others

/-- What an import binds, and the module it imports from. -/
def importNeeds (decl : Node) : Needs :=
  let tokens := decl.children.filter fun n => !n.kind.isTrivia
  match tokens.reverse.find? (·.isScript .str) with
  | none => {}
  | some module =>
    { bound := boundNames tokens
      modules := [(unquoted module.text, (tokens[1]?).any (·.isScript .ident))] }

/-- Renders a statement.  Imports and exports are gathered, other statements given back. -/
def statement (render : Renderer) (n : Node) : Rendered (Option Code) := do
  let code := Code.trimEnd (← copyTree render n [])
  if n.isScript .importDecl then
    Rendered.gather { importNeeds n with imports := [code] }
    return none
  else if n.isScript .exportDecl then
    Rendered.gather { exports := [code] }
    return none
  else return some code

/-- Renders the statements of a script. -/
def scriptStatements (render : Renderer) (body : Option Node) : Rendered (List Code) :=
  match body with
  | none => pure []
  | some body =>
    match body.hostedRoot? with
    | none => do
      Rendered.report ⟨body.span, "script could not be parsed", ["the script grammar is not registered"]⟩
      return []
    | some root => do
      let nodes := root.children.filter fun n => !n.kind.isTrivia && !n.isScript .semicolon
      let codes ← Rendered.forAll (statement render) nodes
      return codes.filterMap id

/-! ## Expressions and attribute lists -/

/-- Renders the expression that a node hosts, unless it is blank.  One that was not read is a string. -/
def hostedExpr (render : Renderer) (host : Node) : Rendered (Option Expr) :=
  match host.hostedRoot? with
  | none => pure (some ((Expr.str host.text).located host.start))
  | some root => do
    let code := Code.trim (← copyTree render root [])
    if code.isBlank then return none
    else
      match code with
      | [.expr e] => return some e
      | code => return some ((Expr.bare (.code code)).located host.start)

/-- Renders the attribute list that a node hosts as members, without a comma at the end. -/
def hostedMembers (render : Renderer) (host : Node) : Rendered (List Member) :=
  match host.hostedRoot? with
  | none => do
    Rendered.report
      ⟨host.span, "attribute list could not be parsed", ["the script grammar is not registered"]⟩
    return []
  | some root => do
    let code := Code.trim (Code.dropComma (Code.trim (← copyTree render root [])))
    return if code.isBlank then [] else [.code code]

end ComponentMarkup.Render
