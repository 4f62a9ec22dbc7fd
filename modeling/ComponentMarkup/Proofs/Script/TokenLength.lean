import ComponentMarkup.Proofs.Text.Scan
import ComponentMarkup.Script.Token

/-!
# The length of tokens

Whatever the next token is, it takes at least one character and no more than there are.  So the lexer moves
on with every token and never leaves its text.

* `lexeme_fits` — the bounds, for every first character and whatever follows it.
-/

namespace ComponentMarkup.Script

open ComponentMarkup.Text ComponentMarkup.Tree

/-- A lexeme that takes at least one and at most the given number of characters. -/
def Lexeme.Fits (token : Lexeme) (available : Nat) : Prop :=
  1 ≤ token.length ∧ token.length ≤ available

/-! ## Scans -/

/-- A comment is closed within its text. -/
theorem blockCommentLength?_le {cs : List Char} {n : Nat} (h : blockCommentLength? cs = some n) :
    n ≤ cs.length := by
  fun_induction blockCommentLength? cs generalizing n <;>
    grind [Option.map_eq_some_iff]

/-- A string lies within its text. -/
theorem stringLength_le (quote : Char) (escaped : Bool) (cs : List Char) :
    stringLength quote escaped cs ≤ cs.length := by
  fun_induction stringLength quote escaped cs <;>
    grind

/-- A template string is closed within its text. -/
theorem templateLength?_le {depth : Nat} {cs : List Char} {n : Nat}
    (h : templateLength? depth cs = some n) : n ≤ cs.length := by
  fun_induction templateLength? depth cs generalizing n <;>
    grind [Option.map_eq_some_iff]

/-- An exponent lies within its text. -/
theorem exponentLength_le {cs : List Char} :
    (∀ n, exponentLength cs = .ok n → n ≤ cs.length) ∧
      ∀ n, exponentLength cs = .error n → n ≤ cs.length := by
  cases cs with
  | nil => simp [exponentLength]
  | cons c cs =>
      have hsign : (if cs.head? == some '+' || cs.head? == some '-' then 1 else 0) ≤ cs.length := by
        cases cs <;> grind
      have hdigits := runLength_le isDigit
        (cs.drop (if cs.head? == some '+' || cs.head? == some '-' then 1 else 0))
      rw [List.length_drop] at hdigits
      simp only [exponentLength]
      constructor <;> grind

/-- A fraction lies within its text. -/
theorem fractionLength_le (cs : List Char) : fractionLength cs ≤ cs.length := by
  unfold fractionLength
  split
  · rename_i d cs
    have hrun := runLength_le isNumeral (d :: cs)
    grind
  · exact Nat.zero_le _

/-! ## Numbers -/

/-- The end of a number lies within what follows its digits. -/
theorem numberEnd_bound (length : Nat) (rest : List Char) :
    length ≤ (numberEnd length rest).length ∧
      (numberEnd length rest).length ≤ length + rest.length := by
  have hmark : (if rest.head? == some 'n' then 1 else 0) ≤ rest.length := by
    cases rest <;> grind
  have hextra := runLength_le isWordPart (rest.drop (if rest.head? == some 'n' then 1 else 0))
  rw [List.length_drop] at hextra
  simp only [numberEnd]
  generalize (if rest.head? == some 'n' then 1 else 0) = mark at hmark hextra ⊢
  split <;> exact ⟨by dsimp only; omega, by dsimp only; omega⟩

/-- A number lies within its text. -/
theorem numberLexeme_fits (c : Char) (cs : List Char) :
    (numberLexeme c cs).Fits (cs.length + 1) := by
  simp only [numberLexeme]
  split
  · rename_i hradix
    have hne : 1 ≤ cs.length := by
      cases cs with
      | nil => simp at hradix
      | cons d ds => simp
    have hrun := runLength_le (fun d => isHexDigit d || d == '_') cs.tail
    rw [List.length_tail] at hrun
    have hend := numberEnd_bound (runLength (fun d => isHexDigit d || d == '_') cs.tail + 2)
      (cs.drop (runLength (fun d => isHexDigit d || d == '_') cs.tail + 1))
    rw [List.length_drop] at hend
    exact ⟨by omega, by omega⟩
  · have hwhole := runLength_le isNumeral cs
    have hfraction : (if c == '.' then 0 else fractionLength (cs.drop (runLength isNumeral cs))) ≤
        cs.length - runLength isNumeral cs := by
      have h := fractionLength_le (cs.drop (runLength isNumeral cs))
      rw [List.length_drop] at h
      split <;> omega
    generalize (if c == '.' then 0 else fractionLength (cs.drop (runLength isNumeral cs))) =
      fraction at hfraction ⊢
    have hexponent := @exponentLength_le ((cs.drop (runLength isNumeral cs)).drop fraction)
    rw [List.length_drop, List.length_drop] at hexponent
    split
    · rename_i n hn
      have h := hexponent.2 n hn
      exact ⟨by dsimp only; omega, by dsimp only; omega⟩
    · rename_i n hn
      have h := hexponent.1 n hn
      have hend := numberEnd_bound (1 + runLength isNumeral cs + fraction + n)
        (((cs.drop (runLength isNumeral cs)).drop fraction).drop n)
      rw [List.length_drop, List.length_drop, List.length_drop] at hend
      exact ⟨by omega, by omega⟩

/-! ## Embedded commands -/

/-- The groups of an embedded command lie within its text. -/
theorem embedGroups_bound (fuel length : Nat) (cs : List Char) :
    length ≤ (embedGroups fuel length cs).length ∧
      (embedGroups fuel length cs).length ≤ length + cs.length := by
  induction fuel generalizing length cs with
  | zero => exact ⟨Nat.le_refl _, Nat.le_add_right _ _⟩
  | succ fuel ih =>
      simp only [embedGroups]
      split
      · rename_i tail
        cases hgroup : groupLength? .square tail with
        | none => exact ⟨by dsimp only; omega, by simp only [List.length_cons]; omega⟩
        | some n =>
            have hn := groupLength?_lt hgroup
            have hrest := ih (length + n + 2) (tail.drop (n + 1))
            rw [List.length_drop] at hrest
            dsimp only
            rw [List.length_cons]
            exact ⟨by omega, by omega⟩
      · rename_i tail
        cases hbrace : closingBrace? 0 tail with
        | none => exact ⟨by dsimp only; omega, by simp only [List.length_cons]; omega⟩
        | some n =>
            have hn := closingBrace?_lt hbrace
            have hrest := ih (length + n + 2) (tail.drop (n + 1))
            rw [List.length_drop] at hrest
            dsimp only
            rw [List.length_cons]
            exact ⟨by omega, by omega⟩
      · split <;> exact ⟨Nat.le_refl _, Nat.le_add_right _ _⟩

/-- An embedded command lies within its text. -/
theorem embedLexeme_fits (cs : List Char) : (embedLexeme cs).Fits (cs.length + 1) := by
  cases cs with
  | nil =>
      have h := embedGroups_bound 1 1 []
      exact ⟨h.1, h.2⟩
  | cons c tail =>
      simp only [embedLexeme]
      split
      · have hrun := runLength_le isWordPart (c :: tail)
        have h := embedGroups_bound ((c :: tail).length + 1) (1 + runLength isWordPart (c :: tail))
          ((c :: tail).drop (runLength isWordPart (c :: tail)))
        rw [List.length_drop] at h
        exact ⟨by omega, by omega⟩
      split
      · have hrun := runLength_le isDigit (c :: tail)
        have h := embedGroups_bound ((c :: tail).length + 1) (1 + runLength isDigit (c :: tail))
          ((c :: tail).drop (runLength isDigit (c :: tail)))
        rw [List.length_drop] at h
        exact ⟨by omega, by omega⟩
      split
      · cases hgroup : groupLength? .paren tail with
        | none => exact ⟨by dsimp only; omega, by dsimp only; omega⟩
        | some n =>
            have hn := groupLength?_lt hgroup
            have h := embedGroups_bound ((c :: tail).length + 1) (n + 3) (tail.drop (n + 1))
            rw [List.length_drop] at h
            simp only [List.length_cons] at h
            refine ⟨?_, ?_⟩ <;> dsimp only [List.length_cons] <;> omega
      · have h := embedGroups_bound ((c :: tail).length + 1) 1 (c :: tail)
        exact ⟨h.1, by omega⟩

/-! ## All tokens -/

/-- An operator that an equals sign may follow lies within its text. -/
theorem assignable_bound (length : Nat) (rest : List Char) :
    length ≤ (assignable length rest).length ∧
      (assignable length rest).length ≤ length + rest.length := by
  unfold assignable
  cases rest <;> grind

/-- An operator lies within its text. -/
theorem operatorLexeme?_fits {c : Char} {cs : List Char} {token : Lexeme}
    (h : operatorLexeme? c cs = some token) : token.Fits (cs.length + 1) := by
  unfold operatorLexeme? at h
  split at h <;>
    grind [Lexeme.Fits, assignable_bound]

/-- A string lies within its text. -/
theorem stringLexeme_fits (quote : Char) (cs : List Char) :
    (stringLexeme quote cs).Fits (cs.length + 1) := by
  have hle := stringLength_le quote false cs
  simp only [stringLexeme]
  split
  · rename_i hquote
    have hlt : stringLength quote false cs < cs.length := by
      apply Nat.lt_of_not_le
      intro hge
      rw [List.drop_eq_nil_of_le hge] at hquote
      simp at hquote
    exact ⟨by dsimp only; omega, by dsimp only; omega⟩
  · exact ⟨by dsimp only; omega, by dsimp only; omega⟩

/-- A template string lies within its text. -/
theorem templateLexeme_fits (cs : List Char) : (templateLexeme cs).Fits (cs.length + 1) := by
  unfold templateLexeme
  split
  · rename_i n hn
    have hle := templateLength?_le hn
    exact ⟨by dsimp only; omega, by dsimp only; omega⟩
  · exact ⟨by dsimp only; omega, by dsimp only; omega⟩

/-- A word lies within its text. -/
theorem wordLexeme_fits (before : List Char) (c : Char) (cs : List Char) :
    (wordLexeme before c cs).Fits (cs.length + 1) := by
  have hrun := (List.takeWhile_prefix isWordPart (l := cs)).length_le
  simp only [wordLexeme, Lexeme.Fits, List.length_cons]
  omega

/-- **Every token takes at least one character and no more than there are.** -/
theorem lexeme_fits (before : List Char) (c : Char) (cs : List Char) :
    (lexeme before c cs).Fits (cs.length + 1) := by
  unfold lexeme
  split
  · have hrun := runLength_le isWhitespace cs
    exact ⟨by dsimp only; omega, by dsimp only; omega⟩
  split
  · have hrun := runLength_le (fun d => !isNewline d) cs
    exact ⟨by dsimp only; omega, by dsimp only; omega⟩
  split
  · rename_i hcomment
    cases hn : blockCommentLength? cs.tail with
    | none => exact ⟨by dsimp only; omega, by dsimp only; omega⟩
    | some n =>
        have hle := blockCommentLength?_le hn
        have hne : 1 ≤ cs.length := by
          cases cs with
          | nil => simp at hcomment
          | cons d ds => simp
        rw [List.length_tail] at hle
        exact ⟨by dsimp only; omega, by dsimp only; omega⟩
  split
  · exact embedLexeme_fits cs
  split
  · exact stringLexeme_fits c cs
  split
  · exact templateLexeme_fits cs
  split
  · exact numberLexeme_fits c cs
  · split
    · rename_i token htoken
      exact operatorLexeme?_fits htoken
    · split
      · exact wordLexeme_fits before c cs
      · exact ⟨Nat.le_refl 1, by dsimp only; omega⟩

end ComponentMarkup.Script
