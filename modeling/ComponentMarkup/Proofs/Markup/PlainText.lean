import ComponentMarkup.Markup.PlainText
import ComponentMarkup.Proofs.Text.Scan

/-!
# How far inline scans reach

The scans of inline content stay within the line that they are given, and what they look for lies within
it too.
-/

namespace ComponentMarkup.Markup

open ComponentMarkup.Text

/-- Plain text stays within its line. -/
theorem plainRun_le (inHead inBody : Bool) (opened : Nat) (cs : List Char) :
    (plainRun inHead inBody opened cs).1 ≤ cs.length := by
  fun_induction plainRun inHead inBody opened cs <;>
    grind

/-- The content after a colon stays within its line. -/
theorem lineContentLength_le (insideBody : Bool) (depth : Nat) (cs : List Char) :
    lineContentLength insideBody depth cs ≤ cs.length := by
  fun_induction lineContentLength insideBody depth cs <;>
    grind

/-- The dollar sign that ends a formula lies within the line. -/
theorem mathLength?_lt {escaped : Bool} {cs : List Char} {n : Nat}
    (h : mathLength? escaped cs = some n) : n < cs.length := by
  fun_induction mathLength? escaped cs generalizing n <;>
    grind [Option.map_eq_some_iff]

/-- A formula that does not start with a dollar sign has some text. -/
theorem mathLength?_pos {escaped : Bool} {c : Char} {cs : List Char} {n : Nat}
    (h : mathLength? escaped (c :: cs) = some n) (hc : c ≠ '$') : 0 < n := by
  have hne : (c == '$' && !escaped) = false := by simp [hc]
  rw [mathLength?, hne, if_neg (by simp), Option.map_eq_some_iff] at h
  obtain ⟨m, _, rfl⟩ := h
  exact Nat.succ_pos m

/-- The backticks that end a code span lie within the line, together with what stands before them. -/
theorem codeLength?_bound {width run : Nat} {cs : List Char} {n : Nat}
    (h : codeLength? width run cs = some n) : n ≤ cs.length ∧ width ≤ run + n := by
  fun_induction codeLength? width run cs generalizing n <;>
    grind [Option.map_eq_some_iff]

/-- The angle bracket that ends an address lies within the line. -/
theorem addressLength?_lt {cs : List Char} {n : Nat} (h : addressLength? cs = some n) :
    n < cs.length := by
  simp only [addressLength?] at h
  split at h
  · rename_i hclosed
    obtain rfl := Option.some.inj h
    simp only [Bool.and_eq_true, beq_iff_eq, List.head?_drop] at hclosed
    exact (List.getElem?_eq_some_iff.mp hclosed.1.1.1.1).1
  · exact absurd h (by simp)

end ComponentMarkup.Markup
