import ComponentMarkup.Text.Bracket

/-!
# How far scans reach

Every scan answers with a number of characters of the text it was given, so nothing that is cut off by a
scan reaches behind the end of that text.
-/

namespace ComponentMarkup.Text

/-- A run is no longer than the text it is taken from. -/
theorem runLength_le (p : Char → Bool) (cs : List Char) : runLength p cs ≤ cs.length :=
  (List.takeWhile_prefix p).length_le

/-- A run that starts with a fitting character counts it. -/
theorem runLength_cons (p : Char → Bool) {c : Char} {cs : List Char} (h : p c = true) :
    runLength p (c :: cs) = runLength p cs + 1 := by
  simp [runLength, h]

/-- A word has at least one character and lies within its text. -/
theorem wordLength?_bound {cs : List Char} {n : Nat} (h : wordLength? cs = some n) :
    1 ≤ n ∧ n ≤ cs.length := by
  cases cs with
  | nil => simp [wordLength?] at h
  | cons c cs =>
      simp only [wordLength?] at h
      split at h
      · obtain rfl := Option.some.inj h
        have hrun := runLength_le isWordPart cs
        rw [List.length_cons]
        omega
      · exact absurd h (by simp)

/-- The brace that closes a body lies within the text. -/
theorem closingBrace?_lt {depth : Nat} {cs : List Char} {n : Nat}
    (h : closingBrace? depth cs = some n) : n < cs.length := by
  fun_induction closingBrace? depth cs generalizing n <;>
    grind [Option.map_eq_some_iff]

/-- The bracket that closes a group lies within the text. -/
theorem closingBracket?_lt {opened : List Bracket} {state : GroupState} {cs : List Char} {n : Nat}
    (h : closingBracket? opened state cs = some n) : n < cs.length := by
  fun_induction closingBracket? opened state cs generalizing n <;>
    grind [Option.map_eq_some_iff]

/-- The closing bracket of a group lies within the text. -/
theorem groupLength?_lt {bracket : Bracket} {cs : List Char} {n : Nat}
    (h : groupLength? bracket cs = some n) : n < cs.length :=
  closingBracket?_lt h

/-- The delimiter behind a verbatim body lies within the text. -/
theorem verbatimLength?_lt {cs : List Char} {n : Nat} (h : verbatimLength? cs = some n) :
    n + 2 ≤ cs.length := by
  fun_induction verbatimLength? cs generalizing n <;>
    grind [Option.map_eq_some_iff]

end ComponentMarkup.Text
