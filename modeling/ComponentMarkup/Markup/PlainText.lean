import ComponentMarkup.Text.Bracket

/-!
# Scans of inline content

How far plain text runs before a character that may mean something, and where inline constructs that
end on their own line end.  Every scan takes the characters from its start to the end of the line.
-/

namespace ComponentMarkup.Markup

open ComponentMarkup.Text

/-- Characters that may start an inline construct other than a command. -/
def isTrigger (c : Char) : Bool :=
  c == '\\' || c == '*' || c == '_' || c == '~' || c == '\x60' || c == '$' || c == '<' || c == '!' ||
    c == '/' || c == '-' || c == '.'

/-- Characters that have a meaning of their own inside a command head. -/
def isHeadMark (c : Char) : Bool :=
  c == '[' || c == '{' || c == ':' || c == '|' || c == '='

/-- How far plain text runs, and how many braces it leaves open, `opened` of them so far.  Text stops at an
introducer unless a backslash stands before it, at a trigger and at a line end; in a head also at the
marks of heads.  Brackets stop it too, except that directly inside a body it runs over balanced braces. -/
def plainRun (inHead inBody : Bool) (opened : Nat) : List Char → Nat × Nat
  | [] => (0, opened)
  | '\\' :: [] => (0, opened)
  | '\\' :: d :: cs =>
    if isIntroducer d then
      let (n, left) := plainRun inHead inBody opened cs
      (n + 2, left)
    else (0, opened)
  | c :: cs =>
    if isIntroducer c || isTrigger c || isNewline c || (inHead && isHeadMark c) then (0, opened)
    else if c == '{' then
      if inBody then
        let (n, left) := plainRun inHead inBody (opened + 1) cs
        (n + 1, left)
      else (0, opened)
    else if c == '}' then
      if inBody && 0 < opened then
        let (n, left) := plainRun inHead inBody (opened - 1) cs
        (n + 1, left)
      else (0, opened)
    else if c == '[' || c == '(' || c == ']' || c == ')' then (0, opened)
    else
      let (n, left) := plainRun inHead inBody opened cs
      (n + 1, left)

/-- How far the content after a colon runs: to the end of the line or, inside a body, to the first brace
that closes more than was opened, `depth` braces being open so far. -/
def lineContentLength (insideBody : Bool) (depth : Nat) : List Char → Nat
  | [] => 0
  | '\\' :: [] => 1
  | '\\' :: _ :: cs => lineContentLength insideBody depth cs + 2
  | '{' :: cs => lineContentLength insideBody (depth + 1) cs + 1
  | '}' :: cs =>
    match depth with
    | d + 1 => lineContentLength insideBody d cs + 1
    | 0 => if insideBody then 0 else lineContentLength insideBody 0 cs + 1
  | _ :: cs => lineContentLength insideBody depth cs + 1

/-- How many characters stand before the dollar sign that ends a formula; one after a backslash does
not. -/
def mathLength? (escaped : Bool) : List Char → Option Nat
  | [] => none
  | c :: cs =>
    if c == '$' && !escaped then some 0
    else (mathLength? (c == '\\' && !escaped) cs).map (· + 1)

/-- How many characters it takes to the end of a run of exactly `width` backticks, `run` backticks having
just been seen. -/
def codeLength? (width run : Nat) : List Char → Option Nat
  | [] => if run = width then some 0 else none
  | c :: cs =>
    if c == '\x60' then
      (codeLength? width (run + 1) cs).map (· + 1)
    else if run = width then some 0
    else (codeLength? width 0 cs).map (· + 1)

/-- The length of the address in angle brackets, given the characters after the opening one: a scheme of
at least two characters, a colon, and no space or angle bracket. -/
def addressLength? (cs : List Char) : Option Nat :=
  let isStop := fun c => c == '>' || c == '<' || c == ' ' || c == '\t'
  let url := cs.takeWhile fun c => !isStop c
  let scheme := url.takeWhile fun c => c != ':'
  let isSchemePart := fun c => isLetter c || isDigit c || c == '+' || c == '.' || c == '-'
  if (cs.drop url.length).head? == some '>' && scheme.length < url.length && 2 ≤ scheme.length &&
      scheme.head?.any isLetter && scheme.all isSchemePart then some url.length
  else none

end ComponentMarkup.Markup
