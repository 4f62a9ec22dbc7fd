import ComponentMarkup.Text.Character

/-!
# Brackets and where they close

Three kinds of brackets, and the scans that look for the end of a bracketed stretch.  Each scan takes the
characters after the opening bracket and answers how many of them stand before the closing one, or
nothing if it never comes.
-/

namespace ComponentMarkup.Text

/-- A kind of bracket. -/
inductive Bracket where
  | brace | square | paren
  deriving DecidableEq, Repr

namespace Bracket

/-- The bracket that a character opens. -/
def openedBy? (c : Char) : Option Bracket :=
  if c == '{' then some brace
  else if c == '[' then some square
  else if c == '(' then some paren
  else none

/-- The bracket that a character closes. -/
def closedBy? (c : Char) : Option Bracket :=
  if c == '}' then some brace
  else if c == ']' then some square
  else if c == ')' then some paren
  else none

end Bracket

/-- Looks for the brace that closes a body, `depth` braces having been opened inside it.  A character
after a backslash does not count. -/
def closingBrace? (depth : Nat) : List Char → Option Nat
  | [] => none
  | '\\' :: [] => none
  | '\\' :: _ :: cs => (closingBrace? depth cs).map (· + 2)
  | '{' :: cs => (closingBrace? (depth + 1) cs).map (· + 1)
  | '}' :: cs =>
    match depth with
    | 0 => some 0
    | d + 1 => (closingBrace? d cs).map (· + 1)
  | _ :: cs => (closingBrace? depth cs).map (· + 1)

/-- Whether a character quotes text up to its next occurrence. -/
def isQuote (c : Char) : Bool :=
  c == '\x22' || c == '\x27' || c == '\x60'

/-- What the scan for the end of a group stands in. -/
inductive GroupState where
  /-- Text of the group itself. -/
  | plain
  /-- Right after a backslash. -/
  | skipping
  /-- A quoted text, and whether a backslash came last in it. -/
  | quoting (quote : Char) (escaped : Bool)
  deriving DecidableEq, Repr

/-- Looks for the bracket that closes the last of the open ones.  Brackets of all kinds nest, quoted texts
are skipped, and a closing bracket counts only if it fits the innermost open one. -/
def closingBracket? (opened : List Bracket) (state : GroupState) : List Char → Option Nat
  | [] => none
  | c :: cs =>
    match state with
    | .skipping => (closingBracket? opened .plain cs).map (· + 1)
    | .quoting q escaped =>
      let next : GroupState :=
        if c == q && !escaped then .plain else .quoting q (c == '\\' && !escaped)
      (closingBracket? opened next cs).map (· + 1)
    | .plain =>
      if c == '\\' then (closingBracket? opened .skipping cs).map (· + 1)
      else if isQuote c then (closingBracket? opened (.quoting c false) cs).map (· + 1)
      else
        match Bracket.openedBy? c with
        | some b => (closingBracket? (b :: opened) .plain cs).map (· + 1)
        | none =>
          match Bracket.closedBy? c, opened with
          | some b, top :: below =>
            if b = top then
              if below.isEmpty then some 0 else (closingBracket? below .plain cs).map (· + 1)
            else (closingBracket? opened .plain cs).map (· + 1)
          | _, _ => (closingBracket? opened .plain cs).map (· + 1)

/-- How many characters of a group stand before its closing bracket. -/
def groupLength? (bracket : Bracket) (cs : List Char) : Option Nat :=
  closingBracket? [bracket] .plain cs

/-- How many characters of a verbatim body stand before its end, a bar with a closing brace. -/
def verbatimLength? : List Char → Option Nat
  | [] => none
  | '|' :: '}' :: _ => some 0
  | _ :: cs => (verbatimLength? cs).map (· + 1)

end ComponentMarkup.Text
