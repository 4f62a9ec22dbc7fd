import ComponentMarkup.Program.Layout
import ComponentMarkup.Text.Line

/-!
# Source maps

A source map tells which offset of the document an offset of the program stems from.  Its mappings are in the
order of the program, and a place between two of them belongs to the earlier one.  Encoded, every mapping is a
segment of four numbers, each the difference to the one before it, in base 64 digits of five bits.
-/

namespace ComponentMarkup.Program

open ComponentMarkup.Text

/-- A byte offset in the program and the byte offset in the document that it stems from. -/
structure Mapping where
  /-- The offset in the program. -/
  generated : Nat
  /-- The offset in the document. -/
  origin : Nat
  deriving DecidableEq, Repr

/-- The mappings of chunks that start at an offset of the program, `last` being the mapping before them.  A
mark that says the same as the one before it is left out. -/
def mappingsFrom (offset : Nat) (last : Option Mapping) : List Chunk → List Mapping
  | [] => []
  | .text t :: chunks => mappingsFrom (offset + t.utf8ByteSize) last chunks
  | .mark origin :: chunks =>
    let mapping : Mapping := ⟨offset, origin⟩
    if last = some mapping then mappingsFrom offset last chunks
    else mapping :: mappingsFrom offset (some mapping) chunks

/-- Mappings in the order of the program. -/
structure SourceMap where
  /-- The mappings. -/
  mappings : List Mapping
  deriving DecidableEq, Repr

namespace SourceMap

/-- The source map of the given mappings, those of one place kept in their order. -/
def ofMappings (mappings : List Mapping) : SourceMap :=
  ⟨mappings.mergeSort fun a b => decide (a.generated ≤ b.generated)⟩

/-- The source map of laid out chunks. -/
def ofChunks (chunks : List Chunk) : SourceMap :=
  ofMappings (mappingsFrom 0 none chunks)

/-- The offset of the document that an offset of the program stems from. -/
def origin? (map : SourceMap) (generated : Nat) : Option Nat :=
  (map.mappings.takeWhile fun m => m.generated ≤ generated).getLast?.map Mapping.origin

/-- The better of two mappings for looking up an offset of the document: the later in the document, and of two
with the same place there the earlier in the program. -/
def closer (a b : Mapping) : Mapping :=
  if a.origin < b.origin || (a.origin == b.origin && b.generated < a.generated) then b else a

/-- The first offset of the program that stems from the closest mapped offset of the document at or before the
given one. -/
def generated? (map : SourceMap) (origin : Nat) : Option Nat :=
  match map.mappings.filter fun m => m.origin ≤ origin with
  | [] => none
  | m :: ms => some (ms.foldl closer m).generated

/-! ## Encoding -/

/-- The digits of base 64. -/
def base64Digits : List Char :=
  "ABCDEFGHIJKLMNOPQRSTUVWXYZabcdefghijklmnopqrstuvwxyz0123456789+/".toList

/-- The digit of a value below 64. -/
def base64Digit (n : Nat) : Char :=
  base64Digits.getD n 'A'

/-- A number in digits of five bits, least first.  All digits but the last have a sixth bit set. -/
def variableLength (n : Nat) : List Char :=
  if n < 32 then [base64Digit n] else base64Digit (n % 32 + 32) :: variableLength (n / 32)
termination_by n
decreasing_by omega

/-- A number whose sign is its lowest bit. -/
def signedNumber (z : Int) : List Char :=
  variableLength (if z < 0 then 2 * z.natAbs + 1 else 2 * z.natAbs)

/-- What the next segment is relative to. -/
structure SegmentBase where
  /-- The line of the program. -/
  line : Nat := 0
  /-- Whether the line has a segment already. -/
  started : Bool := false
  /-- The column of the last segment on the line. -/
  column : Nat := 0
  /-- The line of the document of the last segment. -/
  originLine : Nat := 0
  /-- The column of the document of the last segment. -/
  originColumn : Nat := 0

/-- The segment for a position of the program that stems from a position of the document. -/
def segment (base : SegmentBase) (place origin : Position) : List Char :=
  let newLine := base.line < place.line
  let column := if newLine then 0 else base.column
  List.replicate (place.line - base.line) ';' ++
    (if base.started && !newLine then [','] else []) ++
    signedNumber (place.column16 - column : Int) ++ signedNumber 0 ++
    signedNumber (origin.line - base.originLine : Int) ++
    signedNumber (origin.column16 - base.originColumn : Int)

/-- The segments of mappings.  A mapping between offsets that are no character boundaries is left out. -/
def segments (program document : LineIndex) (base : SegmentBase) : List Mapping → List Char
  | [] => []
  | m :: ms =>
    match program.position? m.generated, document.position? m.origin with
    | some place, some origin =>
      segment base place origin ++
        segments program document
          ⟨max base.line place.line, true, place.column16, origin.line, origin.column16⟩ ms
    | _, _ => segments program document base ms

/-- The encoded mappings, given the texts of the program and of the document. -/
def encode (map : SourceMap) (program document : String) : String :=
  String.ofList (segments (.ofSource (.ofString program)) (.ofSource (.ofString document)) {}
    map.mappings)

/-! ## Files -/

/-- The contents of a source map file. -/
structure File where
  /-- The version of the format. -/
  version : Nat
  /-- The name of the program. -/
  file : String
  /-- Where the sources are found. -/
  sourceRoot : String
  /-- The names of the sources. -/
  sources : List String
  /-- The texts of the sources. -/
  sourcesContent : List String
  /-- The names that segments refer to. -/
  names : List String
  /-- The encoded mappings. -/
  mappings : String
  deriving DecidableEq, Repr

/-- What a document without a name is called. -/
def defaultSource : String := "document.nota"

/-- The source map file of a program and the document it was made from. -/
def toFile (map : SourceMap) (program document : String) (sourceRoot fileName : Option String) : File :=
  let name := fileName.getD defaultSource
  { version := 3
    file := name ++ ".js"
    sourceRoot := sourceRoot.getD ""
    sources := [name]
    sourcesContent := [document]
    names := []
    mappings := map.encode program document }

end SourceMap

end ComponentMarkup.Program
