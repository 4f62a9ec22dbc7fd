import ComponentMarkup.Proofs.Program.Traced
import ComponentMarkup.Proofs.Render.CopiedText

/-!
# Where copied script stems from

A token is copied with the place where it starts, and white space behind it is added to its text.  A token neither
starts nor ends in white space, and the only one that ends in a comma is the comma.  So trimming script, and leaving
out a comma at its end, takes no part of a token away: a piece keeps its whole token or is dropped.

* `IsTokenText` — what the text of a token is like;
* `CopiedFrom` — a token with the white space behind it;
* `copies_pushToken`, `copies_pushText` — script to which a token or white space is added;
* `copies_trim`, `copies_listed` — what is left of script keeps its tokens.
-/

namespace ComponentMarkup.Render

open ComponentMarkup.Text ComponentMarkup.Tree ComponentMarkup.Document ComponentMarkup.Program
open ComponentMarkup.Script

/-! ## The text of tokens -/

/-- A text that neither starts nor ends in white space.  If it ends in a comma it is one. -/
structure IsTokenText (t : String) : Prop where
  first : ∃ c, t.toList.head? = some c ∧ isWhitespace c = false
  last : ∃ c, t.toList.getLast? = some c ∧ isWhitespace c = false ∧ (c = ',' → t = ",")

/-- What the lexer reads as a token has the text of one. -/
theorem tokenText_of_readsIn {k : ScriptKind} {t : String} {rest : List Char}
    (h : Atom.ReadsIn ⟨k, t.toList⟩ rest) (hk : (Kind.script k).isTrivia = false) : IsTokenText t := by
  obtain ⟨before, c, cs, l, hchars, hlexeme, hcategory⟩ := h
  have hl : (Kind.script l).isTrivia = false := by
    rw [← isTrivia_category, hcategory, isTrivia_category]
    exact hk
  have hchars : t.toList = c :: cs := hchars
  obtain ⟨d, hlast, hwhite, hcomma⟩ := lexeme_last hlexeme hl
  refine ⟨⟨c, by rw [hchars]; rfl, ?_⟩, d, by rw [hchars]; exact hlast, hwhite, fun hd => ?_⟩
  · refine Bool.eq_false_iff.mpr fun hc => ?_
    unfold lexeme at hlexeme
    rw [if_pos hc] at hlexeme
    rw [← Except.ok.inj (congrArg Lexeme.kind hlexeme)] at hl
    exact absurd hl (by decide)
  · obtain rfl := hcomma hd
    have hshape := lexeme_shape before c (cs ++ rest) .comma (congrArg Lexeme.kind hlexeme)
    rw [hlexeme] at hshape
    have htake : (c :: (cs ++ rest)).take (cs.length + 1) = c :: cs := by
      rw [List.take_succ_cons, List.take_left]
    have hone : c :: cs = [','] := htake.symm.trans hshape
    exact String.toList_inj.mp (hchars.trans hone)

/-! ## Pieces of script -/

/-- A token with the white space copied behind it. -/
def CopiedFrom (token : String → Nat → Prop) (text : String) (origin : Nat) : Prop :=
  ∃ t blanks, token t origin ∧ White blanks.toList ∧ text = t ++ blanks

variable {token : String → Nat → Prop} {code : Code} {piece : Piece}

/-- Script whose text was copied from tokens. -/
abbrev CopiesTokens (token : String → Nat → Prop) (code : Code) : Prop :=
  code.Copies (CopiedFrom token)

theorem copies_nil : CopiesTokens token [] :=
  fun _ _ h => absurd h List.not_mem_nil

theorem copies_append {more : Code} (h : CopiesTokens token code) (h' : CopiesTokens token more) :
    CopiesTokens token (code ++ more) := by
  intro t o hmem
  rcases List.mem_append.mp hmem with hmem | hmem
  · exact h t o hmem
  · exact h' t o hmem

theorem copies_expr (e : Expr) : CopiesTokens token [.expr e] := by
  intro t o hmem
  exact absurd (List.mem_singleton.mp hmem) (by simp)

theorem copies_pushToken {t : String} {o : Nat} (h : CopiesTokens token code) (ht : token t o) :
    CopiesTokens token (code.pushToken t o) := by
  refine copies_append h fun t' o' hmem => ?_
  obtain ⟨rfl, ho⟩ := Piece.text.inj (List.mem_singleton.mp hmem)
  obtain rfl := Option.some.inj ho
  exact ⟨t', "", ht, fun c hc => absurd hc List.not_mem_nil, (String.append_empty).symm⟩

theorem copies_tail (h : CopiesTokens token (piece :: code)) : CopiesTokens token code :=
  fun t o hmem => h t o (List.mem_cons_of_mem _ hmem)

theorem copies_cons (hpiece : CopiesTokens token [piece]) (h : CopiesTokens token code) :
    CopiesTokens token (piece :: code) :=
  copies_append hpiece h

theorem copies_head (h : CopiesTokens token (piece :: code)) : CopiesTokens token [piece] :=
  fun t o hmem => h t o (List.mem_cons.mpr (.inl (List.mem_singleton.mp hmem)))

/-- A piece that was not copied. -/
theorem copies_plain (t : String) : CopiesTokens token [.text t none] := by
  intro t' o hmem
  exact absurd (Piece.text.inj (List.mem_singleton.mp hmem)).2 (Option.some_ne_none o)

theorem copies_single {t : String} {o : Nat} (h : CopiedFrom token t o) : CopiesTokens token [.text t (some o)] := by
  intro t' o' hmem
  obtain ⟨rfl, ho⟩ := Piece.text.inj (List.mem_singleton.mp hmem)
  obtain rfl := Option.some.inj ho
  exact h

/-- White space behind a token leaves it copied. -/
theorem copies_pushText {blanks : String} (hblanks : White blanks.toList) (h : CopiesTokens token code) :
    CopiesTokens token (code.pushText blanks) := by
  fun_induction Code.pushText code blanks with
  | case1 blanks => exact copies_plain blanks
  | case2 t o blanks =>
      cases o with
      | none => exact copies_plain _
      | some o =>
          obtain ⟨tok, more, htok, hmore, rfl⟩ := h t o List.mem_cons_self
          refine copies_single ⟨tok, more ++ blanks, htok, ?_, String.append_assoc⟩
          rw [String.toList_append]
          exact fun c hc => (List.mem_append.mp hc).elim (hmore c) (hblanks c)
  | case3 piece code blanks _ ih => exact copies_cons (copies_head h) (ih hblanks (copies_tail h))

section Trimming

variable (htoken : ∀ t o, token t o → IsTokenText t)

include htoken

/-- Trimming a copied text leaves its token. -/
theorem CopiedFrom.trimEnd {t : String} {o : Nat} (h : CopiedFrom token t o) :
    CopiedFrom token (String.ofList (Text.trimEnd t.toList)) o := by
  obtain ⟨tok, blanks, htok, hblanks, rfl⟩ := h
  obtain ⟨c, hc, hsolid, _⟩ := (htoken tok o htok).last
  obtain ⟨back, hback, hwhite, htrimmed⟩ := trimEnd_text (tok ++ blanks).toList
  have hsolid : Trimmed tok.toList := by
    intro d hd
    obtain rfl := Option.some.inj (hc.symm.trans hd)
    exact hsolid
  have hsame : Text.trimEnd (tok ++ blanks).toList = tok.toList :=
    Trimmed.unique (hback.symm.trans String.toList_append) htrimmed hsolid hwhite hblanks
  rw [hsame, String.ofList_toList]
  exact ⟨tok, "", htok, fun c hc => absurd hc List.not_mem_nil, (String.append_empty).symm⟩

/-- A copied text does not start in white space. -/
theorem CopiedFrom.trimStart {t : String} {o : Nat} (h : CopiedFrom token t o) :
    Text.trimStart t.toList = t.toList := by
  obtain ⟨tok, blanks, htok, _, rfl⟩ := h
  obtain ⟨c, hc, hsolid⟩ := (htoken tok o htok).first
  obtain ⟨cs, hcs⟩ : ∃ cs, tok.toList = c :: cs := List.head?_eq_some_iff.mp hc
  rw [String.toList_append, hcs, List.cons_append, Text.trimStart, List.dropWhile_cons_of_neg]
  rw [hsolid]
  exact Bool.false_ne_true

theorem copies_trimEnd (h : CopiesTokens token code) : CopiesTokens token code.trimEnd := by
  induction code with
  | nil => exact h
  | cons piece code ih =>
      by_cases hkept : Code.trimEnd code ≠ [] ∨ ∃ e, piece = .expr e
      · rw [Code.trimEnd_kept hkept]
        exact copies_cons (copies_head h) (ih (copies_tail h))
      · rw [not_or, not_not] at hkept
        cases piece with
        | expr e => exact absurd ⟨e, rfl⟩ hkept.2
        | text t o =>
            rw [Code.trimEnd_text hkept.1]
            split
            · exact copies_nil
            · cases o with
              | none => exact copies_plain _
              | some o => exact copies_single ((h t o List.mem_cons_self).trimEnd htoken)

theorem copies_trimStart (h : CopiesTokens token code) : CopiesTokens token code.trimStart := by
  fun_induction Code.trimStart code with
  | case1 t o code rest hempty ih => exact ih (copies_tail h)
  | case2 t o code rest hempty =>
      refine copies_cons ?_ (copies_tail h)
      cases o with
      | none => exact copies_plain _
      | some o =>
          have hcopied := h t o List.mem_cons_self
          have hrest : String.ofList rest = t := by
            rw [show rest = t.toList from hcopied.trimStart htoken, String.ofList_toList]
          rw [hrest]
          exact copies_single hcopied
  | case3 code _ => exact h

/-- **Trimmed script keeps its tokens.** -/
theorem copies_trim (h : CopiesTokens token code) : CopiesTokens token code.trim :=
  copies_trimStart htoken (copies_trimEnd htoken h)

omit htoken in
/-- An empty text at the end of script is trimmed away. -/
theorem trimEnd_empty (init : Code) (o : Option Nat) : Code.trimEnd (init ++ [.text "" o]) = Code.trimEnd init := by
  induction init with
  | nil => rfl
  | cons piece init ih =>
      rw [List.cons_append]
      unfold Code.trimEnd
      rw [ih]

omit htoken in
/-- Leaving out a comma changes the last piece, or nothing. -/
theorem dropComma_cases (code : Code) : code.dropComma = code ∨ ∃ init t o, code = init ++ [.text t o] ∧
    t.toList.getLast? = some ',' ∧ code.dropComma = init ++ [.text (String.ofList t.toList.dropLast) o] := by
  fun_induction Code.dropComma code with
  | case1 => exact .inl rfl
  | case2 t o hlast => exact .inr ⟨[], t, o, rfl, beq_iff_eq.mp hlast, rfl⟩
  | case3 t o hlast => exact .inl rfl
  | case4 piece code _ ih =>
      rcases ih with hsame | ⟨init, t, o, rfl, hlast, hdrop⟩
      · exact .inl (by rw [hsame])
      · exact .inr ⟨piece :: init, t, o, rfl, hlast, by rw [hdrop]; rfl⟩

/-- A copied text that ends in a comma is one. -/
theorem CopiedFrom.comma {t : String} {o : Nat} (h : CopiedFrom token t o) (hlast : t.toList.getLast? = some ',') :
    t = "," := by
  obtain ⟨tok, blanks, htok, hblanks, rfl⟩ := h
  obtain ⟨c, hc, _, hcomma⟩ := (htoken tok o htok).last
  rw [String.toList_append] at hlast
  by_cases hnil : blanks.toList = []
  · rw [hnil, List.append_nil, hc] at hlast
    obtain rfl := Option.some.inj hlast
    rw [hcomma rfl, String.toList_eq_nil_iff.mp hnil]
    rfl
  · rw [List.getLast?_append_of_ne_nil _ hnil] at hlast
    exact absurd (hblanks ',' (List.mem_of_getLast? hlast)) (by decide)

/-- **Script without a comma at its end keeps its other tokens.** -/
theorem copies_listed (h : CopiesTokens token code) :
    CopiesTokens token (Code.trim (Code.dropComma (Code.trim code))) := by
  have htrim := copies_trim htoken h
  generalize Code.trim code = trimmed at htrim
  rcases dropComma_cases trimmed with hsame | ⟨init, t, o, rfl, hlast, hdrop⟩
  · rw [hsame]
    exact copies_trim htoken htrim
  · have hinit : CopiesTokens token init := fun t o hmem => htrim t o (List.mem_append_left _ hmem)
    rw [hdrop]
    cases o with
    | none => exact copies_trim htoken (copies_append hinit (copies_plain _))
    | some o =>
        -- all of the comma is left out
        obtain rfl := (htrim t o (List.mem_append_right _ List.mem_cons_self)).comma htoken hlast
        have hempty : String.ofList (",".toList.dropLast) = "" := rfl
        rw [hempty, Code.trim, trimEnd_empty]
        exact copies_trim htoken hinit

end Trimming

end ComponentMarkup.Render
