/-!
# Counting in an increasing list of numbers

Several tables of this library are increasing arrays of numbers: the change points of a character
set, the byte offsets of the characters of a text, the starts of its lines.  One question is asked of
all of them: how many entries are at most a given number.
-/

namespace ComponentMarkup.Text

/-- Halves the stretch from `low` to `high` until it is empty.  While every point before `low` is at
most `n` and every point from `high` on is above it, the result counts the points at most `n`. -/
def halve (points : Array Nat) (n : Nat) : (fuel low high : Nat) → Nat
  | 0, low, _ => low
  | fuel + 1, low, high =>
    if low < high then
      let middle := (low + high) / 2
      if points.getD middle 0 ≤ n then halve points n fuel (middle + 1) high
      else halve points n fuel low middle
    else low

/-- How many entries of an increasing array are at most `n`. -/
def countUpTo (points : Array Nat) (n : Nat) : Nat :=
  halve points n points.size 0 points.size

end ComponentMarkup.Text
