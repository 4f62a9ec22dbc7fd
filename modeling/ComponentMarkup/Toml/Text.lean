import ComponentMarkup.Text.Character

/-!
# Strings, keys and white space

Strings are basic, with escapes, or literal, without; both come in one line or in several.  In a string of
several lines a line end right behind the opening quotes is dropped, and up to two quotes may stand before the
closing ones.
-/

namespace ComponentMarkup.Toml

open ComponentMarkup.Text

/-! ## White space and comments -/

/-- What follows a line end. -/
def afterNewline? : List Char → Option (List Char)
  | '\n' :: cs => some cs
  | '\r' :: '\n' :: cs => some cs
  | _ => none

/-- Characters that may stand in a comment: no control characters but the tab. -/
def isCommentChar (c : Char) : Bool :=
  c == '\t' || (0x20 ≤ c.toNat && c.toNat ≠ 0x7F)

/-- What follows spaces and tabs. -/
def skipBlanks (cs : List Char) : List Char :=
  cs.dropWhile isBlank

/-- What follows a comment, if there is one. -/
def skipComment : List Char → List Char
  | '#' :: cs => cs.dropWhile isCommentChar
  | cs => cs

/-- What follows the end of a line: spaces, a comment, and a line end or the end of the text. -/
def afterLine? (cs : List Char) : Option (List Char) :=
  match skipComment (skipBlanks cs) with
  | [] => some []
  | rest => afterNewline? rest

/-- What follows spaces, line ends, and comments that end in line ends. -/
def skipLines : (fuel : Nat) → List Char → List Char
  | 0, cs => cs
  | fuel + 1, cs =>
    let cs := skipBlanks cs
    match afterNewline? (skipComment cs) with
    | some rest => skipLines fuel rest
    | none => cs

/-! ## Escapes -/

/-- The character with a number, if there is one. -/
def scalarOf? (n : Nat) : Option Char :=
  if n.isValidChar then some (Char.ofNat n) else none

/-- The value of a hexadecimal digit. -/
def hexValue (c : Char) : Nat :=
  if isDigit c then c.toNat - '0'.toNat else c.toLower.toNat - 'a'.toNat + 10

/-- A character by its number in `width` hexadecimal digits, and what follows. -/
def numbered? (width : Nat) (cs : List Char) : Option (Char × List Char) :=
  let digits := cs.take width
  if digits.length = width && digits.all isHexDigit then
    (scalarOf? (digits.foldl (fun n c => 16 * n + hexValue c) 0)).map fun c => (c, cs.drop width)
  else none

/-- The character that an escape stands for, given what follows the backslash, and what follows it. -/
def escape? : List Char → Option (Char × List Char)
  | 'b' :: cs => some ('\x08', cs)
  | 't' :: cs => some ('\t', cs)
  | 'n' :: cs => some ('\n', cs)
  | 'f' :: cs => some ('\x0c', cs)
  | 'r' :: cs => some ('\r', cs)
  | '\x22' :: cs => some ('\x22', cs)
  | '\\' :: cs => some ('\\', cs)
  | 'u' :: cs => numbered? 4 cs
  | 'U' :: cs => numbered? 8 cs
  | _ => none

/-! ## Strings -/

/-- A text that was read, and what follows it. -/
abbrev TextRead := Option (List Char × List Char)

/-- The rest of a basic string in one line. -/
def basicRest? : (fuel : Nat) → List Char → TextRead
  | 0, _ => none
  | _ + 1, [] => none
  | fuel + 1, c :: cs =>
    if c == '\x22' then some ([], cs)
    else if c == '\\' then do
      let (d, cs) ← escape? cs
      let (text, rest) ← basicRest? fuel cs
      return (d :: text, rest)
    else if isCommentChar c then do
      let (text, rest) ← basicRest? fuel cs
      return (c :: text, rest)
    else none

/-- The rest of a literal string in one line. -/
def literalRest? (cs : List Char) : TextRead :=
  let isText := fun c => c != '\x27' && isCommentChar c
  match cs.dropWhile isText with
  | '\x27' :: rest => some (cs.takeWhile isText, rest)
  | _ => none

/-- What follows a backslash, spaces and a line end: the next character that is neither. -/
def afterContinuation? (cs : List Char) : Option (List Char) :=
  (afterNewline? (skipBlanks cs)).map fun rest =>
    skipSpace rest.length rest
where
  /-- What follows spaces and line ends. -/
  skipSpace : Nat → List Char → List Char
  | 0, cs => cs
  | fuel + 1, cs =>
    let cs := skipBlanks cs
    match afterNewline? cs with
    | some rest => skipSpace fuel rest
    | none => cs

/-- The rest of a string of several lines that the given quotes end; `escapes` tells whether backslashes
escape. -/
def linesRest? (quote : Char) (escapes : Bool) : (fuel : Nat) → List Char → TextRead
  | 0, _ => none
  | _ + 1, [] => none
  | fuel + 1, c :: cs =>
    let quotes := runLength (· == quote) (c :: cs)
    if 3 ≤ quotes then
      let extra := min (quotes - 3) 2
      some (List.replicate extra quote, (c :: cs).drop (extra + 3))
    else if escapes && c == '\\' then
      match afterContinuation? cs with
      | some rest => linesRest? quote escapes fuel rest
      | none => do
        let (d, cs) ← escape? cs
        let (text, rest) ← linesRest? quote escapes fuel cs
        return (d :: text, rest)
    else
      match afterNewline? (c :: cs) with
      | some rest => do
        let (text, rest) ← linesRest? quote escapes fuel rest
        return ('\n' :: text, rest)
      | none =>
        if isCommentChar c then do
          let (text, rest) ← linesRest? quote escapes fuel cs
          return (c :: text, rest)
        else none

/-- A string of several lines, given what follows its opening quotes. -/
def linesString? (quote : Char) (escapes : Bool) (cs : List Char) : TextRead :=
  let body := (afterNewline? cs).getD cs
  linesRest? quote escapes (body.length + 1) body

/-- A string in one line. -/
def lineString? : List Char → TextRead
  | '\x22' :: cs => basicRest? (cs.length + 1) cs
  | '\x27' :: cs => literalRest? cs
  | _ => none

/-- A string of any form. -/
def string? : List Char → TextRead
  | '\x22' :: '\x22' :: '\x22' :: cs => linesString? '\x22' true cs
  | '\x27' :: '\x27' :: '\x27' :: cs => linesString? '\x27' false cs
  | cs => lineString? cs

/-! ## Keys -/

/-- Characters of keys without quotes. -/
def isKeyChar (c : Char) : Bool :=
  isLetter c || isDigit c || c == '_' || c == '-'

/-- A key without dots. -/
def simpleKey? (cs : List Char) : Option (String × List Char) :=
  if cs.head? == some '\x22' || cs.head? == some '\x27' then
    (lineString? cs).map fun (text, rest) => (String.ofList text, rest)
  else
    let name := cs.takeWhile isKeyChar
    if name.isEmpty then none else some (String.ofList name, cs.dropWhile isKeyChar)

/-- The keys of a path divided by dots, with spaces around them. -/
def keyPath? : (fuel : Nat) → List Char → Option (List String × List Char)
  | 0, _ => none
  | fuel + 1, cs => do
    let (key, rest) ← simpleKey? (skipBlanks cs)
    match skipBlanks rest with
    | '.' :: rest =>
      let (path, rest) ← keyPath? fuel rest
      return (key :: path, rest)
    | rest => return ([key], rest)

/-- How many keys a path may have, and how many arrays and tables may stand inside each other. -/
def maxNesting : Nat := 79

/-- A path of keys. -/
def path? (cs : List Char) : Option (List String × List Char) :=
  (keyPath? cs.length cs).filter fun (path, _) => path.length ≤ maxNesting

end ComponentMarkup.Toml
