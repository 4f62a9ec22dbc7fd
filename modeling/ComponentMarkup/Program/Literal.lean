import ComponentMarkup.Text.Character

/-!
# String literals

A text is written between double quotes.  Quotes, backslashes, control characters and line separators are
escaped, so a literal never holds a line end.
-/

namespace ComponentMarkup.Program

open ComponentMarkup.Text

/-- A character by its number in four hexadecimal digits. -/
def numberEscape (c : Char) : List Char :=
  let digits := Nat.toDigits 16 c.toNat
  '\\' :: 'u' :: (List.replicate (4 - digits.length) '0' ++ digits)

/-- How a character is written in a literal. -/
def literalChar (c : Char) : List Char :=
  if c == '\x22' then ['\\', '\x22']
  else if c == '\\' then ['\\', '\\']
  else if c == '\n' then ['\\', 'n']
  else if c == '\r' then ['\\', 'r']
  else if c == '\t' then ['\\', 't']
  else if c == '\u2028' || c == '\u2029' || isControl c then numberEscape c
  else [c]

/-- A text between double quotes. -/
def literal (text : String) : String :=
  "\"" ++ String.ofList (text.toList.flatMap literalChar) ++ "\""

/-- A key of an object: a word as it is, any other text as a literal. -/
def objectKey (key : String) : String :=
  if isWord key.toList then key else literal key

end ComponentMarkup.Program
