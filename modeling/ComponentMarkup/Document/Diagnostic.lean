import ComponentMarkup.Document.ParseError
import ComponentMarkup.Text.Line
import ComponentMarkup.Tree.Node

/-!
# Diagnostics

What is wrong with a document is reported all at once, in the order of the text, each problem once and with
the line and column where it starts.
-/

namespace ComponentMarkup.Document

open ComponentMarkup.Text ComponentMarkup.Tree

/-- A problem, and where it starts. -/
structure Diagnostic where
  /-- The problem. -/
  fault : Fault
  /-- The line and column at which it starts, from zero. -/
  position : Option (Nat × Nat)
  deriving DecidableEq, Repr

namespace Diagnostic

/-- A problem without a line and column. -/
def unlocated (fault : Fault) : Diagnostic :=
  ⟨fault, none⟩

/-- A problem with its line and column, if it starts at a character boundary. -/
def locate (index : LineIndex) (fault : Fault) : Diagnostic :=
  ⟨fault, (index.position? fault.span.start).map fun p => (p.line, p.column)⟩

/-- The text of a diagnostic, with lines and columns from one. -/
def message (d : Diagnostic) : String :=
  let place :=
    match d.position with
    | some (line, column) => toString (line + 1) ++ ":" ++ toString (column + 1)
    | none => "byte " ++ toString d.fault.span.start
  "error at " ++ place ++ ": " ++ d.fault.message ++
    String.join (d.fault.hints.map fun hint => "\n  hint: " ++ hint)

end Diagnostic

/-- All problems of a document. -/
structure Report where
  /-- The diagnostics. -/
  diagnostics : List Diagnostic
  deriving DecidableEq, Repr

namespace Report

/-- Whether a problem comes before another: by where it starts, then by where it ends. -/
def precedes (a b : Fault) : Bool :=
  a.span.start < b.span.start || (a.span.start == b.span.start && a.span.stop ≤ b.span.stop)

/-- A list without entries that equal the one before them. -/
def dropRepeated {α : Type} [DecidableEq α] : List α → List α
  | [] => []
  | [a] => [a]
  | a :: b :: rest => if a = b then dropRepeated (b :: rest) else a :: dropRepeated (b :: rest)

/-- The report of problems with a text, in the order of the text. -/
def ofFaults (text : String) (faults : List Fault) : Report :=
  let index := LineIndex.ofSource (.ofString text)
  ⟨dropRepeated ((faults.mergeSort precedes).map (Diagnostic.locate index))⟩

/-- The text of a report, one diagnostic after the other. -/
def message (r : Report) : String :=
  "\n".intercalate (r.diagnostics.map Diagnostic.message)

end Report

/-- The error of a document that cannot be read, as a problem with it. -/
def ParseError.fault (e : ParseError) : Fault where
  span := ⟨e.offset, e.offset⟩
  message := e.what
  hints := ["the problem is near \"" ++ excerpt e.before ++ excerpt e.after ++ "\""]

end ComponentMarkup.Document
