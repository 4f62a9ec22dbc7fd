import ComponentMarkup.Text.PrintableTable

/-!
# Texts quoted in messages

How messages show a text: quotes, backslashes and the common control characters are escaped by a
backslash, and characters without a visible form are shown by their number.
-/

namespace ComponentMarkup.Text

/-- A character by its number, in hexadecimal. -/
def numbered (c : Char) : String :=
  "\\u\x7b" ++ String.ofList (Nat.toDigits 16 c.toNat) ++ "\x7d"

/-- How a character is shown.  With `apostrophe`, an apostrophe is escaped too; with `standalone`, so is
a character that would join the one before it. -/
def shown (apostrophe standalone : Bool) (c : Char) : String :=
  if c == '\x00' then "\\0"
  else if c == '\t' then "\\t"
  else if c == '\r' then "\\r"
  else if c == '\n' then "\\n"
  else if c == '\\' then "\\\\"
  else if c == '\x22' then "\\\""
  else if c == '\x27' then if apostrophe then "\\'" else "'"
  else if standalone && combining.contains c then numbered c
  else if invisible.contains c then numbered c
  else String.singleton c

/-- A stretch of text inside a message: a joining character is shown by its number only at the start,
where nothing precedes it. -/
def excerpt : List Char → String
  | [] => ""
  | c :: cs => shown true true c ++ String.join (cs.map (shown true false))

/-- A text in double quotes, every joining character shown by its number. -/
def quoted (s : String) : String :=
  "\"" ++ String.join (s.toList.map (shown false true)) ++ "\""

end ComponentMarkup.Text
