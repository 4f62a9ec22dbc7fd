import ComponentMarkup.Markup.Block
import ComponentMarkup.Script.Grammar
import ComponentMarkup.Text.Quoted

/-!
# Grammars and sets of grammars

A grammar reads a stretch of a text from one of its entry points.  A set holds at most one grammar of each
name.  Some kinds of nodes stand for text of another grammar: `choice?` says of which one, and which entry
point reads it.
-/

namespace ComponentMarkup.Document

open ComponentMarkup.Text ComponentMarkup.Tree

/-- A language that a stretch of a document can be written in. -/
structure Grammar where
  /-- Its name. -/
  name : String
  /-- The entry points that other grammars may ask for. -/
  entries : List String
  /-- The kinds of its nodes. -/
  catalog : Catalog
  /-- Reads a stretch of a text from an entry point. -/
  parse : Source → Span → String → Limited Node

namespace Grammar

/-- The language of documents.  Every entry point but `inline` reads blocks. -/
def markup : Grammar where
  name := "markup"
  entries := ["document", "inline"]
  catalog := .markup
  parse src s entry :=
    if entry == "inline" then Markup.readInlineContent src s else Markup.readDocument src s

/-- The language of scripts. -/
def script : Grammar where
  name := "script"
  entries := Script.Entry.all.map Script.Entry.name
  catalog := .script
  parse := Script.readNamed

/-- The language of documents or of scripts, by name. -/
def named? (name : String) : Option Grammar :=
  [markup, script].find? fun g => g.name == name

/-- The grammar with other entry points on offer. -/
def restrict (g : Grammar) (entries : List String) : Grammar :=
  { g with entries := entries }

/-- A stand-in that reads every stretch as a single leaf, and may report that it is nested too deep.  If
`only` names an entry point, the others are read as before. -/
def standIn (g : Grammar) (kind : Kind) (overflows : Bool) (only : Option String) : Grammar :=
  { g with
    parse := fun src s entry =>
      if only.all (· == entry) then
        ⟨.leaf kind (src.text s) s, if overflows then some s.start else none⟩
      else g.parse src s entry }

end Grammar

/-- The grammars that a document is read with, at most one of each name. -/
structure GrammarSet where
  /-- The grammars. -/
  grammars : List Grammar

namespace GrammarSet

/-- No grammars. -/
def empty : GrammarSet := ⟨[]⟩

/-- Removes the grammar of a name. -/
def unregister (set : GrammarSet) (name : String) : GrammarSet :=
  ⟨set.grammars.filter fun g => g.name != name⟩

/-- Adds a grammar in place of one with the same name. -/
def register (set : GrammarSet) (g : Grammar) : GrammarSet :=
  ⟨(set.unregister g.name).grammars ++ [g]⟩

/-- The grammars of documents and of scripts. -/
def standard : GrammarSet :=
  (empty.register .markup).register .script

/-- The grammar of a name. -/
def get? (set : GrammarSet) (name : String) : Option Grammar :=
  set.grammars.find? fun g => g.name == name

/-- The names of the grammars in order, as messages show them. -/
def written (set : GrammarSet) : String :=
  let names := (set.grammars.map Grammar.name).mergeSort fun a b => decide (a ≤ b)
  "\x7b" ++ ", ".intercalate (names.map quoted) ++ "\x7d"

end GrammarSet

/-- Which grammar, from which entry point, reads the text of a node of a kind. -/
def choice? : Kind → Option Choice
  | .markup .scriptBody => some ⟨"script", "statements"⟩
  | .markup .attributeValue => some ⟨"script", "expression"⟩
  | .markup .inlineAttributes => some ⟨"script", "attributes"⟩
  | .markup .nameExpr => some ⟨"script", "expression"⟩
  | .markup .markupHole => some ⟨"markup", "document"⟩
  | .script .embed => some ⟨"markup", "inline"⟩
  | _ => none

end ComponentMarkup.Document
