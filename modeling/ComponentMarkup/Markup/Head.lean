import ComponentMarkup.Text.Bracket
import ComponentMarkup.Tree.Node

/-!
# Command heads

The head of a command is its sigil, its name and its attribute list.  The name is a word, a single digit
or an expression in parentheses; it may be missing if an attribute list or a body follows.
-/

namespace ComponentMarkup.Markup

open ComponentMarkup.Text ComponentMarkup.Tree

/-- How a command is named. -/
inductive HeadName where
  /-- A word or a digit. -/
  | plain (span : Span)
  /-- An expression, the parentheses included. -/
  | computed (span : Span)
  deriving DecidableEq, Repr

/-- Where the name of a command stands. -/
def HeadName.span : HeadName → Span
  | .plain s => s
  | .computed s => s

/-- Where the parts of a command head stand. -/
structure Head where
  /-- The sigil. -/
  sigil : Span
  /-- The name. -/
  name : Option HeadName
  /-- The attribute list, brackets included. -/
  attributes : Option Span
  deriving DecidableEq, Repr

namespace Head

/-- Where a head ends. -/
def stop (h : Head) : Nat :=
  match h.attributes, h.name with
  | some s, _ => s.stop
  | none, some name => name.span.stop
  | none, none => h.sigil.stop

/-- A node made of an opening bracket, what stands inside, and the closing bracket. -/
def bracketed (src : Source) (kind left inside right : MarkupKind) (s : Span) : Node :=
  let close := s.stop - 1
  .markup kind <|
    leafOf src left s.start (s.start + 1) ::
      (if s.start + 1 < close then [leafOf src inside (s.start + 1) close] else []) ++
      [leafOf src right close s.stop]

/-- The nodes of a head. -/
def nodes (src : Source) (h : Head) : List Node :=
  let name :=
    match h.name with
    | some (.plain s) => [leafOf src .commandName s.start s.stop]
    | some (.computed s) => [bracketed src .dynamicName .leftParen .nameExpr .rightParen s]
    | none => []
  let attributes :=
    match h.attributes with
    | some s => [bracketed src .attributeList .leftBracket .inlineAttributes .rightBracket s]
    | none => []
  leafOf src .sigil h.sigil.start h.sigil.stop :: name ++ attributes

/-- Reads the name of a command from the characters after its sigil, which stand at `place`.  The outer
result is missing if no command can start like this. -/
def readName? (place : Nat) : List Char → Option (Option HeadName)
  | [] => none
  | c :: cs =>
    match wordLength? (c :: cs) with
    | some n => some (some (.plain ⟨place, place + n⟩))
    | none =>
      if isDigit c then some (some (.plain ⟨place, place + 1⟩))
      else if c == '(' then
        (groupLength? .paren cs).map fun n => some (.computed ⟨place, place + n + 2⟩)
      else if c == '{' || c == '[' then some none
      else none

/-- Reads the attribute list at `place`, if there is a closed one. -/
def readAttributes? (place : Nat) : List Char → Option Span
  | '[' :: cs => (groupLength? .square cs).map fun n => ⟨place, place + n + 2⟩
  | _ => none

/-- Reads the head of a command whose sigil of `width` characters stands at `start`, not looking past
`limit`. -/
def read? (src : Source) (start width limit : Nat) : Option Head := do
  let place := start + width
  let rest := src.slice place limit
  let name ← readName? place rest
  let next := (name.map fun n => n.span.stop).getD place
  let tail := src.slice next limit
  let attributes := readAttributes? next tail
  if name.isNone && attributes.isNone && tail.head? != some '{' then none
  else some ⟨⟨start, place⟩, name, attributes⟩

end Head

/-- A verbatim body, from its opening delimiter at `opening` to its closing one at `closing`. -/
def verbatimNode (src : Source) (opening closing : Nat) : Node :=
  .markup .verbatim <|
    leafOf src .verbatimDelim opening (opening + 2) ::
      (if opening + 2 < closing then [leafOf src .verbatimText (opening + 2) closing] else []) ++
      [leafOf src .verbatimDelim closing (closing + 2)]

end ComponentMarkup.Markup
