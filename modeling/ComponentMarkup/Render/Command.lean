import ComponentMarkup.Render.Sequence
import ComponentMarkup.Settings.Basic

/-!
# Rendering commands

A component becomes an element.  An interpolation becomes what its name stands for, called with its contents if
it has any.  A reference becomes an element that names its target.
-/

namespace ComponentMarkup.Render

open ComponentMarkup.Text ComponentMarkup.Tree ComponentMarkup.Document ComponentMarkup.Program

/-- A problem with a command, and null in its place. -/
def problemValue (c : Command) (message : String) (hints : List String) : Rendered Expr := do
  Rendered.report ⟨c.span, message, hints⟩
  return .null

/-- What the name of a command stands for. -/
def target (render : Renderer) (c : Command) : Rendered Expr :=
  match c.name with
  | .ident name => Rendered.refer name
  | .positional 0 =>
    problemValue c "positional arguments start at 1" ["use `#1` for the first argument"]
  | .positional (n + 1) => do
    let arguments ← Rendered.refer Expr.argumentsName
    return .bare (.index arguments n)
  | .dynamic (some expr) => do
    match (← hostedExpr render expr) with
    | some e => return e
    | none => problemValue c "command name is empty" []
  | .dynamic none =>
    problemValue c "command name is empty" ["write an expression between the parentheses"]
  | .anonymous => pure (.ident Expr.fragmentName)

/-- The members of a command's attribute list. -/
def listedMembers (render : Renderer) (c : Command) : Rendered (List Member) :=
  match c.properties with
  | none => pure []
  | some host => hostedMembers render host

/-- Renders a reference. -/
def reference (render : Renderer) (c : Command) : Rendered Expr := do
  let name ←
    match c.name with
    | .ident name => pure (Expr.str name)
    | _ => target render c
  let component ← Rendered.refer "Ref"
  let members ← listedMembers render c
  return .element component (.object members) [.item name]

/-- Renders an interpolation. -/
def interpolation (render : Renderer) (c : Command) : Rendered Expr := do
  let callee ← target render c
  let members ← listedMembers render c
  let blocks ← Rendered.forAll (fun block => inlineElems render (blockContents block)) c.contentBlocks
  let properties := if members.isEmpty then [] else [Elem.item (.object members)]
  let arguments := properties ++ blocks.map fun elems => Elem.item (.array elems)
  return if arguments.isEmpty then callee else .call callee arguments

/-- Renders the body of a component: properties and children.  If the body is just a paragraph, the children are
its content. -/
def bodyContents (render : Renderer) (nodes : List Node) : Rendered (List Member × List Elem) :=
  match soleParagraph? nodes with
  | none => do
    let (members, blocks) ← configurableSequence render nodes
    return (members, [.spread blocks])
  | some paragraph => do
    let parts ← sequenceParts render true (nodes.filter (·.isMarkup .attributeLine))
    let children ← inlineElems render paragraph.children
    return (partProperties parts, children)

/-- Renders a body of several lines in braces.  One that was not read is a string. -/
def holeContents (render : Renderer) (hole : Node) : Rendered (List Member × List Elem) :=
  match hostedSequence? hole with
  | some nodes => bodyContents render nodes
  | none => pure ([], [.item (.str hole.text)])

/-- Renders a part that may be missing. -/
def optionally {α : Type} (part : Option Node) (f : Node → Rendered (List α)) : Rendered (List α) :=
  match part with
  | some n => f n
  | none => pure []

/-- Renders the contents of a component in all forms that it may have: properties and children. -/
def componentContents (render : Renderer) (c : Command) : Rendered (List Member × List Elem) := do
  let line ← optionally c.lineContent fun n => inlineElems render n.children
  let blocks ← Rendered.forAll (fun block => inlineElems render (blockContents block)) c.contentBlocks
  let verbatim := (c.verbatim.map fun text => Elem.item (.str text)).toList
  let (holeMembers, hole) ←
    match c.hole with
    | some n => holeContents render n
    | none => pure ([], [])
  let (bodyMembers, body) ←
    match c.body with
    | some n => bodyContents render (significant n)
    | none => pure ([], [])
  return (holeMembers ++ bodyMembers, line ++ blocks.flatten ++ verbatim ++ hole ++ body)

/-- Renders a component.  One that is neither an element nor anonymous is told whether it is a block. -/
def component (settings : Settings) (render : Renderer) (c : Command) : Rendered Expr := do
  let name ←
    match c.name with
    | .ident name => if settings.isIntrinsic name then pure (Expr.str name) else Rendered.refer name
    | _ => target render c
  let anonymous :=
    match c.name with
    | .anonymous => true
    | _ => false
  let isBlock :=
    if name.isStr || anonymous then []
    else [Member.pair "block" (.bool (c.kind == .blockComponent))]
  let listed ← listedMembers render c
  let (members, children) ← componentContents render c
  return .element name (.object (isBlock ++ listed ++ members)) children

/-- Renders a command. -/
def command (settings : Settings) (render : Renderer) (c : Command) : Rendered Expr :=
  match c.kind with
  | .reference => reference render c
  | .interpolation => interpolation render c
  | _ => component settings render c

end ComponentMarkup.Render
