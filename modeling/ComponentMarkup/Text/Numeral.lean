import ComponentMarkup.Text.Character

/-!
# Decimal numerals

Numbers written in a document name list items and arguments.  They have at least one digit, nothing else, and
fit into 64 bits.
-/

namespace ComponentMarkup.Text

/-- The value of a digit. -/
def digitValue (c : Char) : Nat :=
  c.toNat - '0'.toNat

/-- The value of decimal digits, most significant first. -/
def numeralValue (cs : List Char) : Nat :=
  cs.foldl (fun value c => 10 * value + digitValue c) 0

/-- The number that a text writes, if it is a numeral of 64 bits. -/
def numeral? (cs : List Char) : Option Nat :=
  let value := numeralValue cs
  if !cs.isEmpty && cs.all isDigit && value < Nat.pow 2 64 then some value else none

end ComponentMarkup.Text
