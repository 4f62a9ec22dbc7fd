import ComponentMarkup.Text.IdentifierTable
import ComponentMarkup.Text.LetterTable

/-!
# Character classes

The classes of characters the document and script languages are made of: white space and line ends,
the characters of words, letters that are written without spaces between words, and the characters
that introduce a command.  For words and letters the ASCII characters are spelled out and the others
come from tables.
-/

namespace ComponentMarkup.Text

/-- White space, by the Unicode property of that name. -/
def isWhitespace (c : Char) : Bool :=
  let n := c.toNat
  (0x09 ≤ n && n ≤ 0x0D) || n == 0x20 || n == 0x85 || n == 0xA0 || n == 0x1680 ||
    (0x2000 ≤ n && n ≤ 0x200A) || n == 0x2028 || n == 0x2029 || n == 0x202F || n == 0x205F ||
    n == 0x3000

/-- Characters that end a line: line feed, vertical tab, form feed, carriage return, next line, and
the line and paragraph separators. -/
def isNewline (c : Char) : Bool :=
  let n := c.toNat
  (0x0A ≤ n && n ≤ 0x0D) || n == 0x85 || n == 0x2028 || n == 0x2029

/-- Horizontal white space, the only kind that indents a line. -/
def isBlank (c : Char) : Bool :=
  c == ' ' || c == '\t'

/-- Control characters. -/
def isControl (c : Char) : Bool :=
  let n := c.toNat
  n < 0x20 || (0x7F ≤ n && n ≤ 0x9F)

/-- Decimal digits of ASCII. -/
def isDigit (c : Char) : Bool :=
  '0' ≤ c && c ≤ '9'

/-- Hexadecimal digits of ASCII. -/
def isHexDigit (c : Char) : Bool :=
  isDigit c || ('a' ≤ c && c ≤ 'f') || ('A' ≤ c && c ≤ 'F')

/-- Letters of ASCII. -/
def isLetter (c : Char) : Bool :=
  ('a' ≤ c && c ≤ 'z') || ('A' ≤ c && c ≤ 'Z')

/-- Punctuation of ASCII: every visible character that is neither a letter nor a digit. -/
def isPunctuation (c : Char) : Bool :=
  let n := c.toNat
  0x21 ≤ n && n ≤ 0x7E && !isLetter c && !isDigit c

/-- Whether a character can start a word. -/
def isWordStart (c : Char) : Bool :=
  isLetter c || c == '_' || c == '$' || (0x80 ≤ c.toNat && identifierStart.contains c)

/-- Whether a character can continue a word. -/
def isWordPart (c : Char) : Bool :=
  isLetter c || isDigit c || c == '_' || c == '$' ||
    (0x80 ≤ c.toNat && identifierContinue.contains c)

/-- Letters and digits of every script. -/
def isAlphanumeric (c : Char) : Bool :=
  isLetter c || isDigit c || (0x80 ≤ c.toNat && letterOrNumber.contains c)

/-- Whether a character is a letter or digit of a script that separates words by spaces, so that a
mark next to it can stand inside a word. -/
def isWordy (c : Char) : Bool :=
  isAlphanumeric c && !unspacedScript.contains c

/-- Characters that introduce a command in markup. -/
def isIntroducer (c : Char) : Bool :=
  c == '@' || c == '#' || c == '%' || c == '&'

/-- How many characters at the start satisfy the test. -/
def runLength (p : Char → Bool) (cs : List Char) : Nat :=
  (cs.takeWhile p).length

/-- The length of the word at the start of a text, if there is one. -/
def wordLength? : List Char → Option Nat
  | [] => none
  | c :: cs => if isWordStart c then some (runLength isWordPart cs + 1) else none

/-- Whether a whole text is one word. -/
def isWord (cs : List Char) : Bool :=
  wordLength? cs == some cs.length

/-- A text without the white space at its start. -/
def trimStart (cs : List Char) : List Char :=
  cs.dropWhile isWhitespace

/-- A text without the white space at its end. -/
def trimEnd (cs : List Char) : List Char :=
  (cs.reverse.dropWhile isWhitespace).reverse

/-- A text without the white space at both ends. -/
def trim (cs : List Char) : List Char :=
  trimEnd (trimStart cs)

/-- Whether a text holds nothing but white space. -/
def isAllWhite (cs : List Char) : Bool :=
  cs.all isWhitespace

end ComponentMarkup.Text
