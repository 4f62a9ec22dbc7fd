import ComponentMarkup.Proofs.Script.Keywords
import ComponentMarkup.Proofs.Script.TokenStable

/-!
# The tokens of a text

The tokens of a text, white space and comments left out, are what is left of it when it is read again.  They do
not depend on what stands before the text, if reserved words count as identifiers.  White space between tokens
matters only by whether it holds a line end.

* `Token`, `tokensOf` — the tokens of a text, each with whether a line end stands before it;
* `tokensOf_token`, `tokensOf_white` — the tokens of a text that starts with a token or with white space;
* `Closed` — a text that ends in a token which ends where it closes, or in a word;
* `Closed.tokensOf_append` — the tokens of such a text and of what follows it.
-/

namespace ComponentMarkup.Script

open ComponentMarkup.Text ComponentMarkup.Tree

/-- A token of a text. -/
structure Token where
  /-- Its kind, reserved words counting as identifiers. -/
  kind : Kind
  /-- Its characters. -/
  chars : List Char
  /-- Whether a line end stands before it, behind the token before it. -/
  fresh : Bool
  deriving DecidableEq

/-- The kind of a node, reserved words counting as identifiers. -/
def category : Kind → Kind
  | .script k => .script k.category
  | k => k

/-- The tokens in front of a lexer, at most the given number with white space and comments counted.  `fresh`
tells whether a line end was already passed. -/
def Lexer.tokens : Nat → (fresh : Bool) → Lexer → List Token
  | 0, _, _ => []
  | fuel + 1, fresh, lx =>
    match lx.rest with
    | [] => []
    | _ :: _ =>
      let (node, lx) := lx.next
      if node.kind.isTrivia then tokens fuel (fresh || node.text.toList.any isNewline) lx
      else ⟨category node.kind, node.text.toList, fresh⟩ :: tokens fuel false lx

/-- The tokens of a text that stands alone. -/
def tokensOf (fresh : Bool) (cs : List Char) : List Token :=
  Lexer.tokens cs.length fresh ⟨[], 0, cs⟩

variable {k : ScriptKind} {c : Char} {cs rest before : List Char} {fresh : Bool} {lx ly : Lexer}

/-! ## What stands before a text -/

/-- Two readings that differ at most in whether a word is reserved. -/
def Lexeme.Alike (a b : Lexeme) : Prop :=
  a.length = b.length ∧ (a.kind = b.kind ∨ ∃ k l, a.kind = .ok k ∧ b.kind = .ok l ∧ k.category = l.category)

/-- What stands before a token matters only for whether a word is reserved. -/
theorem lexeme_before (before before' : List Char) (c : Char) (cs : List Char) :
    (lexeme before c cs).Alike (lexeme before' c cs) := by
  have hsame : ∀ a : Lexeme, a.Alike a := fun a => ⟨rfl, .inl rfl⟩
  unfold lexeme
  split
  · exact hsame _
  split
  · exact hsame _
  split
  · exact hsame _
  split
  · exact hsame _
  split
  · exact hsame _
  split
  · exact hsame _
  split
  · exact hsame _
  split
  · exact hsame _
  split
  · refine ⟨rfl, .inr ⟨_, _, rfl, rfl, ?_⟩⟩
    exact (wordLexeme_category rfl).trans (wordLexeme_category rfl).symm
  · exact hsame _

/-- Whether a token is white space or a comment does not depend on whether a word is reserved. -/
theorem isTrivia_category (k : ScriptKind) : (Kind.script k.category).isTrivia = (Kind.script k).isTrivia := by
  cases k <;> rfl

/-- The next tokens of two lexers in front of the same text. -/
structure SameNext (lx ly : Lexer) : Prop where
  rest : lx.next.2.rest = ly.next.2.rest
  chars : lx.next.1.text = ly.next.1.text
  category : category lx.next.1.kind = category ly.next.1.kind
  trivia : lx.next.1.kind.isTrivia = ly.next.1.kind.isTrivia
  shorter : lx.next.2.rest.length < lx.rest.length

theorem Lexer.sameNext (hx : lx.rest = c :: cs) (hy : ly.rest = c :: cs) : SameNext lx ly := by
  obtain ⟨hlength, hkind⟩ := lexeme_before lx.before ly.before c cs
  obtain ⟨hlexer, htext, hnode⟩ := Lexer.next_cons hx
  obtain ⟨hlexer', htext', hnode'⟩ := Lexer.next_cons hy
  obtain ⟨hpos, _⟩ := lexeme_fits lx.before c cs
  refine ⟨?_, ?_, ?_, ?_, ?_⟩
  · rw [hlexer, hlexer', hlength]
    show lx.rest.drop _ = ly.rest.drop _
    rw [hx, hy]
  · rw [htext, htext', hlength, hx, hy]
  · rw [hnode, hnode']
    rcases hkind with hkind | ⟨k, l, hk, hl, hcategory⟩
    · rw [hkind]
    · rw [hk, hl]
      exact congrArg Kind.script hcategory
  · rw [hnode, hnode']
    rcases hkind with hkind | ⟨k, l, hk, hl, hcategory⟩
    · rw [hkind]
    · rw [hk, hl]
      dsimp only
      rw [← isTrivia_category k, hcategory, isTrivia_category l]
  · rw [hlexer]
    show (lx.rest.drop _).length < _
    rw [hx, List.length_drop, List.length_cons]
    omega

theorem Lexer.tokens_nil (fuel : Nat) (h : lx.rest = []) : lx.tokens fuel fresh = [] := by
  cases fuel with
  | zero => rfl
  | succ fuel => simp only [Lexer.tokens, h]

/-- The first token, or white space or a comment that is left out. -/
theorem Lexer.tokens_cons (fuel : Nat) (h : lx.rest = c :: cs) :
    lx.tokens (fuel + 1) fresh =
      if lx.next.1.kind.isTrivia then
        lx.next.2.tokens fuel (fresh || lx.next.1.text.toList.any isNewline)
      else ⟨category lx.next.1.kind, lx.next.1.text.toList, fresh⟩ :: lx.next.2.tokens fuel false := by
  simp only [Lexer.tokens, h]

/-- The tokens of a text do not depend on what stands before it, nor on how many may be read. -/
theorem Lexer.tokens_eq {fuel fuel' : Nat} (h : lx.rest = ly.rest) (hx : lx.rest.length ≤ fuel)
    (hy : ly.rest.length ≤ fuel') : lx.tokens fuel fresh = ly.tokens fuel' fresh := by
  induction fuel generalizing fuel' fresh lx ly with
  | zero =>
      have hnil : lx.rest = [] := List.eq_nil_of_length_eq_zero (Nat.le_zero.mp hx)
      rw [tokens_nil 0 hnil, tokens_nil fuel' (h.symm.trans hnil)]
  | succ fuel ih =>
      cases hrest : lx.rest with
      | nil => rw [tokens_nil _ hrest, tokens_nil _ (h.symm.trans hrest)]
      | cons c cs =>
          have hrest' : ly.rest = c :: cs := h.symm.trans hrest
          obtain ⟨fuel', rfl⟩ : ∃ n, fuel' = n + 1 := by
            rw [hrest', List.length_cons] at hy
            exact ⟨fuel' - 1, by omega⟩
          have hnext := Lexer.sameNext hrest hrest'
          have hshort := hnext.shorter
          have hleft : lx.next.2.rest.length ≤ fuel := by omega
          have hleft' : ly.next.2.rest.length ≤ fuel' := by
            rw [← hnext.rest]
            rw [h] at hshort
            omega
          rw [tokens_cons fuel hrest, tokens_cons fuel' hrest', hnext.trivia, hnext.chars, hnext.category]
          split
          · exact ih hnext.rest hleft hleft'
          · rw [ih hnext.rest hleft hleft']

/-! ## The tokens of a text, from its start -/

theorem tokensOf_nil : tokensOf fresh [] = [] :=
  rfl

/-- What the first token leaves of a text. -/
theorem tokensOf_lexeme (h : lexeme before c (cs ++ rest) = ⟨.ok k, cs.length + 1⟩) :
    tokensOf fresh (c :: cs ++ rest) =
      if (Kind.script k).isTrivia then tokensOf (fresh || (c :: cs).any isNewline) rest
      else ⟨.script k.category, c :: cs, fresh⟩ :: tokensOf false rest := by
  have hstart : tokensOf fresh (c :: cs ++ rest) =
      (⟨before, 0, c :: (cs ++ rest)⟩ : Lexer).tokens ((cs ++ rest).length + 1) fresh :=
    Lexer.tokens_eq rfl (Nat.le_refl _) (Nat.le_refl _)
  have hfront : (⟨before, 0, c :: (cs ++ rest)⟩ : Lexer).rest = c :: (cs ++ rest) := rfl
  obtain ⟨hlexer, htext, hkind⟩ := Lexer.next_cons hfront
  have hrest : (⟨before, 0, c :: (cs ++ rest)⟩ : Lexer).next.2.rest = rest := by
    rw [hlexer, h]
    show (c :: cs ++ rest).drop (c :: cs).length = rest
    exact List.drop_left
  have hchars : (⟨before, 0, c :: (cs ++ rest)⟩ : Lexer).next.1.text.toList = c :: cs := by
    rw [htext, h, String.toList_ofList]
    show (c :: cs ++ rest).take (c :: cs).length = c :: cs
    exact List.take_left
  have hnext : ∀ fresh', (⟨before, 0, c :: (cs ++ rest)⟩ : Lexer).next.2.tokens (cs ++ rest).length fresh' =
      tokensOf fresh' rest := by
    intro fresh'
    refine Lexer.tokens_eq hrest ?_ (Nat.le_refl _)
    rw [hrest, List.length_append]
    omega
  rw [h] at hkind
  rw [hstart, Lexer.tokens_cons _ rfl, hkind, hchars, hnext, hnext]
  rfl

/-- A token in front of a text. -/
theorem tokensOf_token (h : lexeme before c (cs ++ rest) = ⟨.ok k, cs.length + 1⟩)
    (hk : (Kind.script k).isTrivia = false) :
    tokensOf fresh (c :: cs ++ rest) = ⟨.script k.category, c :: cs, fresh⟩ :: tokensOf false rest := by
  rw [tokensOf_lexeme h, if_neg (by simp [hk])]

/-- White space or a comment in front of a text. -/
theorem tokensOf_trivia (h : lexeme before c (cs ++ rest) = ⟨.ok k, cs.length + 1⟩)
    (hk : (Kind.script k).isTrivia = true) :
    tokensOf fresh (c :: cs ++ rest) = tokensOf (fresh || (c :: cs).any isNewline) rest := by
  rw [tokensOf_lexeme h, if_pos hk]

/-- A run of characters of a class takes all of a text that has no others. -/
theorem runLength_all {p : Char → Bool} (h : ∀ d ∈ cs, p d = true) : runLength p cs = cs.length := by
  induction cs with
  | nil => rfl
  | cons d ds ih =>
      rw [runLength_cons p (h d List.mem_cons_self), ih fun e he => h e (List.mem_cons_of_mem d he),
        List.length_cons]

/-- White space that ends a run of it. -/
theorem tokensOf_run (hc : isWhitespace c = true) (hcs : ∀ d ∈ cs, isWhitespace d = true)
    (hrest : Starts (!isWhitespace ·) rest) :
    tokensOf fresh (c :: cs ++ rest) = tokensOf (fresh || (c :: cs).any isNewline) rest := by
  have hrun : runLength isWhitespace (cs ++ rest) = cs.length := by
    rw [runLength_append hrest, runLength_all hcs]
  have htoken : lexeme [] c (cs ++ rest) = ⟨.ok .space, cs.length + 1⟩ := by
    unfold lexeme
    rw [if_pos hc, hrun]
  exact tokensOf_trivia htoken rfl

/-- A character of white space in front of a text matters only by whether it ends a line. -/
theorem tokensOf_whitespace (hc : isWhitespace c = true) :
    tokensOf fresh (c :: cs) = tokensOf (fresh || isNewline c) cs := by
  obtain ⟨run, rest, rfl, hrun, hrest⟩ : ∃ run rest, cs = run ++ rest ∧
      (∀ d ∈ run, isWhitespace d = true) ∧ Starts (!isWhitespace ·) rest := by
    refine ⟨cs.takeWhile isWhitespace, cs.dropWhile isWhitespace, List.takeWhile_append_dropWhile.symm, ?_, ?_⟩
    · exact fun d hd => List.all_eq_true.mp List.all_takeWhile d hd
    · intro d hd
      have hstop := List.head?_dropWhile_not isWhitespace cs
      rw [show (cs.dropWhile isWhitespace).head? = some d from hd] at hstop
      simp [hstop]
  rw [← List.cons_append, tokensOf_run hc hrun hrest]
  cases run with
  | nil => rw [List.any_cons, List.any_nil, Bool.or_false, List.nil_append]
  | cons d ds =>
      rw [tokensOf_run (hrun d List.mem_cons_self) (fun e he => hrun e (List.mem_cons_of_mem d he)) hrest,
        List.any_cons, Bool.or_assoc]

/-- **White space in front of a text matters only by whether it holds a line end.** -/
theorem tokensOf_white (hcs : ∀ d ∈ cs, isWhitespace d = true) :
    tokensOf fresh (cs ++ rest) = tokensOf (fresh || cs.any isNewline) rest := by
  induction cs generalizing fresh with
  | nil => rw [List.nil_append, List.any_nil, Bool.or_false]
  | cons c cs ih =>
      rw [List.cons_append, tokensOf_whitespace (hcs c List.mem_cons_self),
        ih fun d hd => hcs d (List.mem_cons_of_mem c hd), List.any_cons, Bool.or_assoc]

/-! ## Texts that close -/

/-- A text of whole tokens, none of them an embedded command, of which the last ends where it closes, or is a
word. -/
inductive Closed : List Char → Prop
  /-- The last token. -/
  | last {before : List Char} {c : Char} {cs : List Char} {k : ScriptKind} (closes : Closes c)
      (token : lexeme before c cs = ⟨.ok k, cs.length + 1⟩) : Closed (c :: cs)
  /-- A token, white space or a comment in front of others. -/
  | cons {before : List Char} {c : Char} {cs rest : List Char} {k : ScriptKind}
      (token : lexeme before c (cs ++ rest) = ⟨.ok k, cs.length + 1⟩) (plain : k ≠ .embed)
      (others : Closed rest) : Closed (c :: cs ++ rest)

/-- A character that closes continues no operator. -/
theorem Closes.calm (h : Closes c) : isCalm c = true := by
  have hparts : (operatorParts.all fun d => !isWordStart d) = true := by decide
  have hclosers : closers.all isCalm = true := by decide
  rcases h with hstart | hc
  · have hdigit : isDigit c = false := by
      cases hd : isDigit c with
      | false => rfl
      | true =>
          rw [isWordStart_of_isDigit hd] at hstart
          exact absurd hstart Bool.false_ne_true
    have hpart : operatorParts.contains c = false := by
      refine Bool.eq_false_iff.mpr fun hc => ?_
      have hnone := List.all_eq_true.mp hparts c (List.mem_of_elem_eq_true hc)
      rw [hstart] at hnone
      exact absurd hnone Bool.false_ne_true
    rw [isCalm, hdigit, hpart]
    rfl
  · exact List.all_eq_true.mp hclosers c hc

/-- A token that closes is neither white space nor a comment. -/
theorem Closes.not_trivia (hc : Closes c) {n : Nat} (h : lexeme before c cs = ⟨.ok k, n⟩) :
    (Kind.script k).isTrivia = false := by
  rcases hc with hstart | hc
  · rw [lexeme_wordStart hstart] at h
    rw [← isTrivia_category, wordLexeme_category (congrArg Lexeme.kind h)]
    rfl
  · have hok : ∀ {l : ScriptKind} {m}, (Kind.script l).isTrivia = false →
        (⟨.ok l, m⟩ : Lexeme) = ⟨.ok k, n⟩ → (Kind.script k).isTrivia = false := by
      intro l m hl heq
      obtain rfl := Except.ok.inj (congrArg Lexeme.kind heq)
      exact hl
    have hquote : ∀ {q}, stringLexeme q cs = ⟨.ok k, n⟩ → (Kind.script k).isTrivia = false := by
      intro q hq
      simp only [stringLexeme] at hq
      split at hq
      · exact hok rfl hq
      · exact absurd (congrArg Lexeme.kind hq) (by simp)
    have htemplate : templateLexeme cs = ⟨.ok k, n⟩ → (Kind.script k).isTrivia = false := by
      intro ht
      unfold templateLexeme at ht
      split at ht
      · exact hok rfl ht
      · exact absurd (congrArg Lexeme.kind ht) (by simp)
    simp only [closers, List.mem_cons, List.not_mem_nil, or_false] at hc
    rcases hc with rfl | rfl | rfl | rfl | rfl | rfl
    · exact hquote h
    · exact hquote h
    · exact htemplate h
    · exact hok (l := .rightParen) rfl h
    · exact hok (l := .rightBracket) rfl h
    · exact hok (l := .rightBrace) rfl h

theorem Closed.calm (h : Closed cs) : cs.any isCalm = true := by
  induction h with
  | last closes _ => 
      rw [List.any_cons, closes.calm, Bool.true_or]
  | cons _ _ _ ih => rw [List.any_append, ih, Bool.or_true]

theorem Closed.ne_nil (h : Closed cs) : cs ≠ [] := by
  cases h <;> exact List.cons_ne_nil _ _

/-- A text that closes, in front of a text that does not go on with a word if it ends in one. -/
def Apart (cs rest : List Char) : Prop :=
  ∀ c ∈ cs.getLast?, IsWordChar c → EndsWord rest

/-- **The tokens of a text that closes, and of what follows it.** -/
theorem Closed.tokensOf_append (h : Closed cs) (hapart : Apart cs rest) :
    tokensOf fresh (cs ++ rest) = tokensOf fresh cs ++ tokensOf false rest := by
  induction h generalizing fresh with
  | @last before c cs k closes token =>
      have hk := closes.not_trivia token
      have hhere : lexeme before c (cs ++ []) = ⟨.ok k, cs.length + 1⟩ := by rwa [List.append_nil]
      have hword : isWordStart c = true → EndsWord rest := by
        intro hstart
        have hcategory : k.category = .ident := by
          rw [lexeme_wordStart hstart] at token
          exact wordLexeme_category (congrArg Lexeme.kind token)
        obtain ⟨_, d, hd, hlast⟩ := lexeme_word_ends token (.inl hcategory)
        rw [Nat.add_sub_cancel] at hd
        refine hapart d ?_ hlast
        rw [List.getLast?_eq_getElem?]
        exact hd
      have hboth := lexeme_closed closes hhere hword
      have halone : tokensOf fresh (c :: cs ++ []) = ⟨.script k.category, c :: cs, fresh⟩ :: tokensOf false [] :=
        tokensOf_token hhere hk
      rw [List.append_nil, tokensOf_nil] at halone
      rw [tokensOf_token hboth hk, halone]
      rfl
  | @cons before c cs more k token plain others ih =>
      have hapart' : Apart more rest := by
        intro d hd
        refine hapart d ?_
        rw [List.getLast?_append_of_ne_nil _ others.ne_nil]
        exact hd
      have hagree : Agree more (more ++ rest) :=
        ⟨more, [], rest, (List.append_nil more).symm, rfl, .inl others.calm⟩
      have hhead : (more ++ rest).head? = more.head? := by
        obtain ⟨d, ds, rfl⟩ := List.exists_cons_of_ne_nil others.ne_nil
        rfl
      have htoken : lexeme before c (cs ++ (more ++ rest)) = ⟨.ok k, cs.length + 1⟩ := by
        refine lexeme_stable token plain hagree (fun hk => ?_) fun _ => hhead
        have hends := lexeme_endsWord token hk
        unfold EndsWord Starts
        rw [hhead]
        exact hends
      rw [List.append_assoc]
      cases hk : (Kind.script k).isTrivia with
      | true => rw [tokensOf_trivia htoken hk, tokensOf_trivia token hk, ih hapart']
      | false =>
          rw [tokensOf_token htoken hk, tokensOf_token token hk, ih hapart']
          rfl

end ComponentMarkup.Script
