import ComponentMarkup.Document.Diagnostic
import ComponentMarkup.Document.Parse
import ComponentMarkup.Program.Module
import ComponentMarkup.Render.Markup

/-!
# From documents to programs

A document is read, rendered and laid out as a module.  If anything is wrong with it, all problems are reported
and there is no program.
-/

namespace ComponentMarkup

open ComponentMarkup.Tree ComponentMarkup.Document ComponentMarkup.Program ComponentMarkup.Render

/-- What a program is made for, and what its document is called. -/
structure Options where
  /-- Where the document is found. -/
  sourceRoot : Option String := none
  /-- The name of the document. -/
  fileName : Option String := none
  /-- How documents are turned into programs. -/
  settings : Settings := {}

/-- A program made from a document. -/
structure Compiled where
  /-- The text of the program. -/
  program : String
  /-- Which parts of the document the program stems from. -/
  sourceMap : SourceMap
  /-- The modules that the document's scripts import, in the order of their first imports. -/
  imports : List String

/-- The program of a document, given the tree of its text. -/
def compileTree (text : String) (root : Node) (settings : Settings) : Except Report Compiled :=
  match root.faults, view? root with
  | [], some (.sequence nodes) =>
    let rendered := renderDocument settings root.height nodes
    let needs := rendered.needs
    if needs.problems.isEmpty then
      let (members, body) := rendered.value
      let chunks := moduleLayout settings needs text (documentExpr members body)
      .ok ⟨chunkText chunks, .ofChunks chunks, (importedModules needs).map Prod.fst⟩
    else .error (.ofFaults text needs.problems)
  | [], _ =>
    .error (.ofFaults text [⟨root.span, "expected a document", ["found " ++ root.kind.title]⟩])
  | faults, _ => .error (.ofFaults text faults)

/-- The program of a document. -/
def compile (text : String) (settings : Settings) : Except Report Compiled :=
  match parse text with
  | .error e => .error (.ofFaults text [e.fault])
  | .ok root => compileTree text root settings

/-- The source map file of a program. -/
def Compiled.mapFile (compiled : Compiled) (text : String) (options : Options) : SourceMap.File :=
  compiled.sourceMap.toFile compiled.program text options.sourceRoot options.fileName

end ComponentMarkup
