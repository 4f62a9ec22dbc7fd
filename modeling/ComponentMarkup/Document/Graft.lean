import ComponentMarkup.Document.Grammar

/-!
# Grafting

A tree that one grammar produced has nodes whose text belongs to another.  Grafting goes down the tree and
puts the tree of the other grammar into every such node, and grafts that tree in turn.  A node stays as it
is if its grammar is not at hand, does not offer the entry point, or is already reading the very same stretch
from the same entry point further up.

Once nesting got too deep, the rest of the tree is left alone.
-/

namespace ComponentMarkup.Document

open ComponentMarkup.Text ComponentMarkup.Tree

mutual

/-- Grafts a tree, given how a node hosts the grammar it stands for and whether nesting already got too
deep. -/
def graft (host : Choice → Node → Limited Node) (overflow : Option Nat) : Node → Limited Node
  | .leaf k t s =>
    if overflow.isSome then ⟨.leaf k t s, overflow⟩
    else
      match choice? k with
      | some choice => host choice (.leaf k t s)
      | none => ⟨.leaf k t s, none⟩
  | .inner k s h c b cs =>
    if overflow.isSome then ⟨.inner k s h c b cs, overflow⟩
    else
      match choice? k with
      | some choice => host choice (.inner k s h c b cs)
      | none =>
        let grafted := graftAll host none cs
        ⟨if cs.isEmpty then .inner k s h c b cs else .spanning k s h grafted.value, grafted.overflow⟩
  | .fault m hs t s => ⟨.fault m hs t s, overflow⟩

/-- Grafts several trees one after the other. -/
def graftAll (host : Choice → Node → Limited Node) (overflow : Option Nat) :
    List Node → Limited (List Node)
  | [] => ⟨[], overflow⟩
  | c :: cs =>
    let first := graft host overflow c
    let others := graftAll host first.overflow cs
    ⟨first.value :: others.value, others.overflow⟩

end

/-- Lets a node host the grammar it stands for.  `path` holds what is being read around the node, and
`levels` more grammars may be hosted inside each other. -/
def hostNode (grammars : GrammarSet) (src : Source) :
    (levels : Nat) → (path : List (Choice × Span)) → Choice → Node → Limited Node
  | levels, path, choice, node =>
    match grammars.get? choice.grammar with
    | none => pure node
    | some g =>
      if !g.entries.contains choice.entry || path.contains (choice, node.span) then pure node
      else
        match levels with
        | 0 => ⟨node, some node.start⟩
        | levels + 1 =>
          let parsed := g.parse src node.span choice.entry
          let host := hostNode grammars src levels ((choice, node.span) :: path)
          let root := graft host parsed.overflow parsed.value
          ⟨.hosting node.kind node.span choice root.value, root.overflow⟩

/-- Grafts the tree of a text. -/
def graftRoot (grammars : GrammarSet) (src : Source) (parsed : Limited Node) : Limited Node :=
  graft (hostNode grammars src maxDepth []) parsed.overflow parsed.value

end ComponentMarkup.Document
