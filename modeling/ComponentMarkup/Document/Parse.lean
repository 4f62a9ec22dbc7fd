import ComponentMarkup.Document.Graft
import ComponentMarkup.Document.ParseError

/-!
# Reading documents

A document is read by the grammar of documents, then the trees of the other grammars are grafted in.  What
does not fit becomes faults in the tree, so the only errors are nesting that is too deep and a set without
the grammar of documents.
-/

namespace ComponentMarkup.Document

open ComponentMarkup.Text ComponentMarkup.Tree

/-- The tree of a text, its places counted in characters. -/
def parseSource (grammars : GrammarSet) (src : Source) : Except ParseError Node :=
  match grammars.get? "markup" with
  | none => .error (.atPlace src 0 "the document grammar is not registered")
  | some markup =>
    let root := graftRoot grammars src (markup.parse src src.whole "document")
    match root.overflow with
    | some place => .error (.atPlace src place "maximum nesting depth exceeded")
    | none => .ok root.value

/-- The tree of a text read with the given grammars, its places counted in bytes. -/
def parseWith (grammars : GrammarSet) (text : String) : Except ParseError Node :=
  let src := Source.ofString text
  (parseSource grammars src).map (Node.inBytes src.byteOffsets)

/-- The tree of a text read with the standard grammars. -/
def parse (text : String) : Except ParseError Node :=
  parseWith .standard text

/-- The tree of a stretch of a text as one grammar alone reads it, all places counted in bytes.  There is
none if the stretch does not lie between character boundaries. -/
def parseStretch? (g : Grammar) (text : String) (stretch : Span) (entry : String) :
    Option (Limited Node) := do
  let src := Source.ofString text
  let offsets := src.byteOffsets
  let start ← placeAt? offsets stretch.start
  let stop ← placeAt? offsets stretch.stop
  let parsed := g.parse src ⟨start, stop⟩ entry
  return ⟨parsed.value.inBytes offsets, parsed.overflow.map (byteAt offsets)⟩

end ComponentMarkup.Document
