import ComponentMarkup.Toml.Scalar
import ComponentMarkup.Toml.Table
import ComponentMarkup.Toml.Text

/-!
# Reading TOML

A text is read line by line: comments, headers, and keys with their values.  A text that does not fit the
format has no value.
-/

namespace ComponentMarkup.Toml

open ComponentMarkup.Text

/-- Reads a value. -/
abbrev ValueReader := List Char → Option (Value × List Char)

/-- The elements of an array up to its closing bracket. -/
def elements? (read : ValueReader) : (fuel : Nat) → List Char → Option (List Value × List Char)
  | 0, _ => none
  | fuel + 1, cs =>
    match skipLines cs.length cs with
    | ']' :: rest => some ([], rest)
    | cs => do
      let (value, rest) ← read cs
      match skipLines rest.length rest with
      | ',' :: rest =>
        let (values, rest) ← elements? read fuel rest
        return (value :: values, rest)
      | ']' :: rest => return ([value], rest)
      | _ => none

/-- A path of keys, an equals sign and a value. -/
def assignment? (read : ValueReader) (cs : List Char) : Option ((List String × Value) × List Char) := do
  let (path, rest) ← path? cs
  let rest ← after? '=' rest
  let (value, rest) ← read (skipBlanks rest)
  return ((path, value), rest)

/-- The assignments of a table in braces up to its closing brace.  There is at least one. -/
def assignments? (read : ValueReader) :
    (fuel : Nat) → List Char → Option (List (List String × Value) × List Char)
  | 0, _ => none
  | fuel + 1, cs => do
    let (pair, rest) ← assignment? read cs
    match skipBlanks rest with
    | ',' :: rest =>
      let (pairs, rest) ← assignments? read fuel rest
      return (pair :: pairs, rest)
    | '\x7d' :: rest => return ([pair], rest)
    | _ => none

/-- A table in braces, given what follows the opening one. -/
def braced? (read : ValueReader) (cs : List Char) : Option (Value × List Char) :=
  match skipBlanks cs with
  | '\x7d' :: rest => some (.table [], rest)
  | cs => do
    let (pairs, rest) ← assignments? read cs.length cs
    let value ← inlineTable? pairs
    return (value, rest)

/-- Reads a value in which `levels` arrays and tables may stand inside each other. -/
def value? : (levels : Nat) → ValueReader
  | levels, c :: cs =>
    if c == '\x22' || c == '\x27' then
      (string? (c :: cs)).map fun (text, rest) => (.string (String.ofList text), rest)
    else if c == '[' then
      match levels with
      | 0 => none
      | levels + 1 =>
        (elements? (value? levels) (cs.length + 1) cs).map fun (values, rest) => (.array values, rest)
    else if c == '\x7b' then
      match levels with
      | 0 => none
      | levels + 1 => braced? (value? levels) cs
    else readScalar? (c :: cs)
  | _, [] => none

/-- The items read so far, and the header that the next key belongs to. -/
structure Reading where
  /-- The items. -/
  items : Items
  /-- The path of the last header. -/
  header : List String

/-- Reads a header between brackets, given what follows the opening ones, and the rest of its line. -/
def header? (close : List Char) (cs : List Char) : Option (List String × List Char) := do
  let (path, rest) ← path? cs
  if rest.take close.length == close then
    let rest ← afterLine? (rest.drop close.length)
    return (path, rest)
  else none

/-- Reads one line with a key or a header. -/
def readLine? (r : Reading) (cs : List Char) : Option (Reading × List Char) :=
  match cs with
  | '[' :: '[' :: cs => do
    let (path, rest) ← header? [']', ']'] cs
    let items ← r.items.extend path
    return (⟨items, path⟩, rest)
  | '[' :: cs => do
    let (path, rest) ← header? [']'] cs
    let items ← r.items.define path
    return (⟨items, path⟩, rest)
  | cs => do
    let ((path, value), rest) ← assignment? (value? maxNesting) cs
    let rest ← afterLine? rest
    let items ← Items.changeAt false (Items.put path value) r.header false r.items
    return (⟨items, r.header⟩, rest)

/-- Reads the lines of a text. -/
def readLines? : (fuel : Nat) → Reading → List Char → Option Items
  | 0, r, cs => if cs.isEmpty then some r.items else none
  | fuel + 1, r, cs =>
    match skipBlanks cs with
    | [] => some r.items
    | cs =>
      match afterLine? cs with
      | some rest => readLines? fuel r rest
      | none => do
        let (r, rest) ← readLine? r cs
        readLines? fuel r rest

/-- The values of a text, which may start with a byte order mark. -/
def read? (text : String) : Option Entries :=
  let cs :=
    match text.toList with
    | '\ufeff' :: cs => cs
    | cs => cs
  (readLines? (cs.length + 1) ⟨[], []⟩ cs).map entriesOf

end ComponentMarkup.Toml
