import ComponentMarkup.Text.OrderedPoints

/-!
# Sets of characters given by their change points

A set of Unicode scalar values is stored as the increasing list of the numbers at which membership
changes, starting outside: a character belongs to the set when an odd number of change points is at
or below it.
-/

namespace ComponentMarkup.Text

/-- A set of characters, as the increasing numbers at which membership changes. -/
structure ScalarSet where
  /-- The change points: members start at the first, end before the second, and so on. -/
  changes : Array Nat

/-- Whether the character belongs to the set. -/
def ScalarSet.contains (s : ScalarSet) (c : Char) : Bool :=
  countUpTo s.changes c.toNat % 2 == 1

end ComponentMarkup.Text
