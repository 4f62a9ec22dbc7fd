import ComponentMarkup.Render.Command

/-!
# Rendering documents

Every block and inline node that means something becomes an expression that knows where the node starts.  A
node contains only nodes of smaller height, so the height of a tree is fuel enough to render it.
-/

namespace ComponentMarkup.Render

open ComponentMarkup.Text ComponentMarkup.Tree ComponentMarkup.Document ComponentMarkup.Program

/-! ## Blocks -/

/-- The box of a task. -/
def taskBox (done : Bool) : Expr :=
  .element (.str "input")
    (.object [.pair "type" (.str "checkbox"), .pair "checked" (.bool done), .pair "readOnly" (.bool true)])
    []

/-- Renders an item of a list. -/
def item (render : Renderer) (n : Node) : Rendered Elem :=
  match view? n with
  | some (.listItem task blocks) => do
    let body ← plainSequence render blocks
    let box := (task.map fun done => Elem.item (taskBox done)).toList
    return .item ((Expr.tag "li" (box ++ [.spread body])).located n.start)
  | _ => pure (.item .null)

/-- Renders a list.  The number of its first item is told unless it is one. -/
def list (render : Renderer) (ordered : Bool) (first : Option Nat) (items : List Node) :
    Rendered Expr := do
  let elems ← Rendered.forAll (item render) items
  let properties :=
    match first with
    | some n =>
      if n = 1 then [] else [Member.pair "start" (.bare (.code [.text (toString n) none]))]
    | none => []
  return .element (.str (if ordered then "ol" else "ul")) (.object properties) elems

/-- Renders the cells of a row, each with the alignment of its column. -/
def cells (render : Renderer) (tag : String) : List (Option Align) → List Node → Rendered (List Elem)
  | _, [] => pure []
  | aligns, n :: ns => do
    let children ← inlineElems render n.children
    let properties := (aligns.head?.join.map fun align => Member.pair "align" (.str align.name)).toList
    let others ← cells render tag aligns.tail ns
    return .item (.element (.str tag) (.object properties) children) :: others

/-- Renders a row of a table. -/
def row (render : Renderer) (tag : String) (aligns : List (Option Align)) (n : Node) :
    Rendered Elem := do
  let elems ← cells render tag aligns (n.children.filter (·.isMarkup .tableCell))
  return .item ((Expr.tag "tr" elems).located n.start)

/-- Renders a table. -/
def table (render : Renderer) (header : Option Node) (rows : List Node)
    (aligns : List (Option Align)) : Rendered Expr := do
  let head ← Rendered.forAll (row render "th" aligns) header.toList
  let body ← Rendered.forAll (row render "td" aligns) rows
  return .tag "table" [.item (.tag "thead" head), .item (.tag "tbody" body)]

/-- Renders a block of code. -/
def listing (language : Option String) (code : String) : Rendered Expr := do
  let component ← Rendered.refer "Listing"
  let properties := (language.map fun name => Member.pair "language" (.str name)).toList
  return .element component (.object properties) [.item (.str code)]

/-- Renders a formula. -/
def formula (render : Renderer) (display : Bool) (nodes : List Node) : Rendered Expr := do
  let component ← Rendered.refer (if display then "$$" else "$")
  let children ← inlineElems render nodes
  return .element component (.object []) children

/-- Renders a node as a block, without its place. -/
def blockForm (settings : Settings) (render : Renderer) (n : Node) : Rendered (Option Expr) :=
  match view? n with
  | some (.heading level nodes) => do
    let children ← inlineElems render nodes
    return some (.tag ("h" ++ toString (max 1 (min level 6))) children)
  | some (.list ordered first items) => some <$> list render ordered first items
  | some (.quotation blocks) => do
    let body ← plainSequence render blocks
    return some (.tag "blockquote" [.spread body])
  | some (.table header rows aligns) => some <$> table render header rows aligns
  | some (.fencedCode language code) => some <$> listing language code
  | some (.math true nodes) => some <$> formula render true nodes
  | some (.command c) =>
    if c.kind == .blockComponent then some <$> command settings render c else pure none
  | _ =>
    if n.isMarkup .paragraph then do
      let children ← inlineElems render n.children
      return some (.tag "p" children)
    else pure (if n.isMarkup .text then some (.str n.text) else none)

/-! ## Inline content -/

/-- A text without the backslashes that take away the meaning of introducers. -/
def unescaped : List Char → List Char
  | [] => []
  | [c] => [c]
  | c :: d :: cs =>
    if c == '\\' && isIntroducer d then d :: unescaped cs else c :: unescaped (d :: cs)

/-- Renders a link or an image. -/
def link (render : Renderer) (image : Bool) (url : String) (nodes : List Node) : Rendered Expr :=
  if image then
    pure (.element (.str "img")
      (.object [.pair "src" (.str url), .pair "alt" (.str (linkLabel nodes))]) [])
  else do
    let children ← inlineElems render nodes
    return .element (.str "a") (.object [.pair "href" (.str url)]) children

/-- The element for content between marks of a kind. -/
def markedTag : MarkupKind → String
  | .emph => "em"
  | .strong => "strong"
  | .strikethrough => "s"
  | _ => "code"

/-- Renders an inline node that has no view of its own. -/
def plainInline? (kind : MarkupKind) (n : Node) : Option Expr :=
  match kind with
  | .text => some (.str (String.ofList (unescaped n.text.toList)))
  | .escape => some (.str (String.ofList (n.text.toList.drop 1)))
  | .newline => some (.str "\n")
  | .special => some (.str "\u2014")
  | .codeText => some (.str n.text)
  | .autolink =>
    let url := childText n .url
    some (.element (.str "a") (.object [.pair "href" (.str url)]) [.item (.str url)])
  | _ => none

/-- Renders a node as inline content, without its place. -/
def inlineForm (settings : Settings) (render : Renderer) (n : Node) : Rendered (Option Expr) :=
  match n.kind with
  | .markup kind =>
    match view? n with
    | some (.delimited nodes) => do
      let children ← inlineElems render nodes
      return some (.tag (markedTag kind) children)
    | some (.link image url nodes) => some <$> link render image url nodes
    | some (.math false nodes) => some <$> formula render false nodes
    | some (.command c) =>
      if c.kind == .blockComponent then pure none else some <$> command settings render c
    | _ => pure (plainInline? kind n)
  | _ => pure none

/-! ## Nodes and documents -/

/-- Renders a node of at most the given height. -/
def renderNode (settings : Settings) : (height : Nat) → Renderer
  | 0, _, _ => pure none
  | height + 1, role, n => do
    let e ←
      match role with
      | .block => blockForm settings (renderNode settings height) n
      | .inline => inlineForm settings (renderNode settings height) n
    return e.map (·.located n.start)

/-- Renders the blocks of a document of at most the given height: its properties, and the array of its
blocks. -/
def renderDocument (settings : Settings) (height : Nat) (nodes : List Node) :
    Rendered (List Member × Expr) :=
  configurableSequence (renderNode settings height) nodes

end ComponentMarkup.Render
