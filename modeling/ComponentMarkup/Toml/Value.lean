import ComponentMarkup.Toml.Moment

/-!
# Values of the TOML format

A text in the TOML format is a table of values.  Numbers with a fraction are kept as they are written; they are
only checked.
-/

namespace ComponentMarkup.Toml

/-- A value. -/
inductive Value where
  /-- A text. -/
  | string (text : String)
  /-- A whole number. -/
  | integer (number : Int)
  /-- A number with a fraction, an exponent, or no finite value. -/
  | float (written : String)
  /-- A date, a time of day, or both. -/
  | moment (moment : Moment)
  /-- A truth value. -/
  | boolean (value : Bool)
  /-- A list of values. -/
  | array (values : List Value)
  /-- Values by key, in the order of the text. -/
  | table (entries : List (String × Value))

/-- The entries of a table, in the order of the text. -/
abbrev Entries := List (String × Value)

namespace Value

/-- The text, if the value is one. -/
def string? : Value → Option String
  | string text => some text
  | _ => none

/-- The truth value, if the value is one. -/
def boolean? : Value → Option Bool
  | boolean value => some value
  | _ => none

/-- The texts of an array of texts. -/
def strings? : Value → Option (List String)
  | array values => values.mapM string?
  | _ => none

/-- The key of a moment that is taken for a table. -/
def momentKey : String := "$__toml_private_datetime"

/-- The entries of a table of texts.  A moment is taken for a table whose one entry is its text. -/
def stringPairs? : Value → Option (List (String × String))
  | table entries => entries.mapM fun (key, value) => value.string?.map fun text => (key, text)
  | moment m => some [(momentKey, m.text)]
  | _ => none

end Value

end ComponentMarkup.Toml
