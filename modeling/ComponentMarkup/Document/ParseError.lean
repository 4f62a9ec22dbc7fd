import ComponentMarkup.Text.Cluster
import ComponentMarkup.Text.Quoted
import ComponentMarkup.Text.Source

/-!
# Documents that cannot be read

Reading a document fails only when nesting gets too deep or when there is no grammar to start with.  The
error shows the text around the place, a few clusters on each side.
-/

namespace ComponentMarkup.Document

open ComponentMarkup.Text

/-- Why a document cannot be read at all. -/
structure ParseError where
  /-- The byte offset of the place. -/
  offset : Nat
  /-- What is wrong. -/
  what : String
  /-- The text right before the place. -/
  before : List Char
  /-- The text from the place on. -/
  after : List Char
  deriving DecidableEq, Repr

namespace ParseError

/-- How many clusters are shown on each side of the place. -/
def shownClusters : Nat := 16

/-- The error at a place of a text. -/
def atPlace (src : Source) (place : Nat) (what : String) : ParseError :=
  let before := clusters (src.slice 0 place)
  let after := clusters (src.after place)
  { offset := byteAt src.byteOffsets place
    what := what
    before := (before.drop (before.length - shownClusters)).flatten
    after := (after.take shownClusters).flatten }

/-- The error at a byte offset of a text: at the character that holds the offset, or at the end. -/
def atByte (src : Source) (offset : Nat) (what : String) : ParseError :=
  atPlace src (countUpTo src.byteOffsets offset - 1) what

/-- The text of the error, with the cluster at the place set off by arrows. -/
def message (e : ParseError) : String :=
  let after := clusters e.after
  e.what ++ " at byte " ++ toString e.offset ++ ": \"" ++ excerpt e.before ++ ">>>" ++
    excerpt (after.head?.getD []) ++ "<<<" ++ excerpt after.tail.flatten ++ "\""

end ParseError

end ComponentMarkup.Document
