import ComponentMarkup.Render.Script

/-!
# Rendering sequences of blocks

A sequence of blocks becomes an array.  A script scopes the blocks behind it: they are put into an array of
their own, which is built inside the scope of the script's statements and spread in its place.  Attribute lines
configure what the sequence belongs to, if that can be configured.
-/

namespace ComponentMarkup.Render

open ComponentMarkup.Tree ComponentMarkup.Document ComponentMarkup.Program

/-- What a block of a sequence contributes. -/
inductive Part where
  /-- A rendered block. -/
  | block (expr : Expr)
  /-- Statements that scope what follows, and where they stem from. -/
  | scope (statements : List Code) (origin : Nat)
  /-- A property of what the sequence belongs to. -/
  | property (member : Member)

/-- The elements of a sequence: blocks in order, those behind a scope inside it. -/
def nestParts : List Part → List Elem
  | [] => []
  | .block e :: parts => .item e :: nestParts parts
  | .scope statements origin :: parts =>
    [.spread ((Expr.bare (.scope statements (.array (nestParts parts)))).located origin)]
  | .property _ :: parts => nestParts parts

/-- The properties among the parts of a sequence. -/
def partProperties (parts : List Part) : List Member :=
  parts.filterMap fun
    | .property member => some member
    | _ => none

/-- Renders an attribute line as a member.  Without a value the attribute is true. -/
def attributeMember (render : Renderer) (start : Nat) (key : String) (value : Option Node) :
    Rendered Member :=
  match value with
  | none => pure (.pair key ((Expr.bool true).located start))
  | some host => do
    let e ← hostedExpr render host
    return .pair key ((e.getD (.bool true)).located start)

/-- Renders an attribute line of a sequence, or reports it if there is nothing to configure. -/
def attributePart (render : Renderer) (configurable : Bool) (n : Node) (key : String)
    (value : Option Node) : Rendered (Option Part) :=
  if configurable then do
    let member ← attributeMember render n.start key value
    return some (.property member)
  else do
    Rendered.report
      ⟨n.span, "attribute `" ++ key ++ "` has nothing to configure",
        ["attributes configure the enclosing component or the document"]⟩
    return none

/-- Renders one node of a sequence. -/
def partOf (render : Renderer) (configurable : Bool) (n : Node) : Rendered (Option Part) :=
  match view? n with
  | some (.attributeLine key value) => attributePart render configurable n key value
  | some (.script body) => do
    let statements ← scriptStatements render body
    return if statements.isEmpty then none else some (.scope statements n.start)
  | _ => do
    let e ← render .block n
    return e.map Part.block

/-- The parts of a sequence. -/
def sequenceParts (render : Renderer) (configurable : Bool) (nodes : List Node) :
    Rendered (List Part) := do
  let parts ← Rendered.forAll (partOf render configurable) nodes
  return parts.filterMap id

/-- Renders a sequence that can be configured: its properties, and the array of its blocks. -/
def configurableSequence (render : Renderer) (nodes : List Node) :
    Rendered (List Member × Expr) := do
  let parts ← sequenceParts render true nodes
  return (partProperties parts, .array (nestParts parts))

/-- Renders a sequence in which attribute lines have no place. -/
def plainSequence (render : Renderer) (nodes : List Node) : Rendered Expr := do
  let parts ← sequenceParts render false nodes
  return .array (nestParts parts)

end ComponentMarkup.Render
