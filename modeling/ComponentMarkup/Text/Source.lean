import ComponentMarkup.Text.Character

/-!
# Texts and places in them

A parser sees a text as an array of characters and counts places in characters, so that every place
is a character boundary and every stretch between two places is again a text.  What leaves the
library counts in bytes of the UTF-8 encoding; `Source.byteOffsets` is the ruler between the two.
-/

namespace ComponentMarkup.Text

/-- A stretch of a text, from `start` up to but without `stop`. -/
structure Span where
  /-- The first place of the stretch. -/
  start : Nat
  /-- The first place after the stretch. -/
  stop : Nat
  deriving DecidableEq, Repr, Inhabited

/-- How far a stretch reaches. -/
def Span.size (s : Span) : Nat :=
  s.stop - s.start

/-- A text as an array of characters. -/
structure Source where
  /-- The characters, in order. -/
  chars : Array Char

namespace Source

/-- The characters of a string. -/
def ofString (s : String) : Source :=
  ⟨s.toList.toArray⟩

/-- The number of characters. -/
def size (src : Source) : Nat :=
  src.chars.size

/-- The stretch that covers the whole text. -/
def whole (src : Source) : Span :=
  ⟨0, src.size⟩

/-- The characters from place `i` up to place `j`. -/
def slice (src : Source) (i j : Nat) : List Char :=
  (src.chars.extract i j).toList

/-- The characters from place `i` to the end. -/
def after (src : Source) (i : Nat) : List Char :=
  src.slice i src.size

/-- The characters of a stretch as a string. -/
def text (src : Source) (s : Span) : String :=
  String.ofList (src.slice s.start s.stop)

/-- The character right before place `i`. -/
def before? (src : Source) (i : Nat) : Option Char :=
  if i = 0 then none else src.chars[i - 1]?

/-- The running byte lengths of a text, from `offset` on. -/
def offsetsFrom (offset : Nat) : List Char → List Nat
  | [] => [offset]
  | c :: cs => offset :: offsetsFrom (offset + c.utf8Size) cs

/-- The byte offset of every place of the text, its end included. -/
def byteOffsets (src : Source) : Array Nat :=
  (offsetsFrom 0 src.chars.toList).toArray

end Source

/-- The place with a given byte offset, if one has it. -/
def placeAt? (offsets : Array Nat) (byte : Nat) : Option Nat :=
  let i := countUpTo offsets byte - 1
  if offsets[i]? = some byte then some i else none

/-- The byte offset of a place; a place past the end has the offset of the end. -/
def byteAt (offsets : Array Nat) (place : Nat) : Nat :=
  offsets.getD place (offsets.getD (offsets.size - 1) 0)

end ComponentMarkup.Text
