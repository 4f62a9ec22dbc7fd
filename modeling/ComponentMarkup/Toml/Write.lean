import ComponentMarkup.Text.Character

/-!
# Writing TOML

A string is written in the plainest form that can hold it: basic, then literal, each in one line and then in
several, and escaped if nothing else is possible.  A string of several lines starts on a line of its own.
-/

namespace ComponentMarkup.Toml

open ComponentMarkup.Text

/-- Characters that can only be written by an escape: control characters but the tab and the line feed. -/
def needsEscape (c : Char) : Bool :=
  (c.toNat < 0x20 && c != '\t' && c != '\n') || c.toNat == 0x7F

/-- The most quotes in a row, `run` standing right before the text and `most` being the most so far. -/
def longestRun (quote : Char) (run most : Nat) : List Char → Nat
  | [] => max run most
  | c :: cs =>
    if c == quote then longestRun quote (run + 1) most cs else longestRun quote 0 (max run most) cs

/-- A character by its number in four hexadecimal digits. -/
def numberedEscape (c : Char) : List Char :=
  let digits := (Nat.toDigits 16 c.toNat).map Char.toUpper
  '\\' :: 'u' :: (List.replicate (4 - digits.length) '0' ++ digits)

/-- A text in basic form without its quotes, `quotes` being the quotes right before it.  In several lines, line
feeds stay and only every quote behind two others is escaped. -/
def escapedText (lines : Bool) (quotes : Nat) : List Char → List Char
  | [] => []
  | c :: cs =>
    if c == '\x22' then
      if lines && quotes < 2 then c :: escapedText lines (quotes + 1) cs
      else '\\' :: c :: escapedText lines 0 cs
    else
      let written :=
        if c == '\x08' then ['\\', 'b']
        else if c == '\t' then ['\\', 't']
        else if c == '\n' then if lines then [c] else ['\\', 'n']
        else if c == '\x0c' then ['\\', 'f']
        else if c == '\r' then ['\\', 'r']
        else if c == '\\' then ['\\', '\\']
        else if needsEscape c then numberedEscape c
        else [c]
      written ++ escapedText lines 0 cs

/-- A text between quotes. -/
def between (quotes : String) (cs : List Char) : String :=
  quotes ++ String.ofList cs ++ quotes

/-- A text between quotes of several lines, with a line end before it if it has one. -/
def betweenLines (quotes : String) (hasNewline : Bool) (cs : List Char) : String :=
  between quotes (if hasNewline then '\n' :: cs else cs)

/-- A string. -/
def writeString (text : String) : String :=
  let cs := text.toList
  let hasNewline := cs.contains '\n'
  let mustEscape := cs.any needsEscape
  let hasBackslash := cs.contains '\\'
  let doubles := longestRun '\x22' 0 0 cs
  let singles := longestRun '\x27' 0 0 cs
  if !mustEscape && !hasBackslash && doubles = 0 && !hasNewline then
    between "\"" (escapedText false 0 cs)
  else if !mustEscape && singles = 0 && !hasNewline then between "'" cs
  else if !mustEscape && !hasBackslash && doubles ≤ 2 then
    betweenLines "\"\"\"" hasNewline (escapedText true 0 cs)
  else if !mustEscape && singles ≤ 2 then betweenLines "'''" hasNewline cs
  else if hasNewline then betweenLines "\"\"\"" true (escapedText true 0 cs)
  else between "\"" (escapedText false 0 cs)

/-- Whether a key needs no quotes. -/
def isBareKey (cs : List Char) : Bool :=
  !cs.isEmpty && cs.all fun c => isLetter c || isDigit c || c == '_' || c == '-'

/-- A key. -/
def writeKey (key : String) : String :=
  let cs := key.toList
  let mustEscape := cs.any fun c => needsEscape c || c == '\n'
  if isBareKey cs then key
  else if !mustEscape && !cs.contains '\\' && !cs.contains '\x22' then
    between "\"" (escapedText false 0 cs)
  else if !mustEscape && !cs.contains '\x27' then between "'" cs
  else between "\"" (escapedText false 0 cs)

/-- An array of strings on one line. -/
def writeStrings (texts : List String) : String :=
  "[" ++ ", ".intercalate (texts.map writeString) ++ "]"

/-- A key with its value on a line. -/
def writeLine (key value : String) : String :=
  writeKey key ++ " = " ++ value ++ "\n"

end ComponentMarkup.Toml
