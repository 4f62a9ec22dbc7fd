import ComponentMarkup.Program.Layout
import ComponentMarkup.Program.Simplify
import ComponentMarkup.Proofs.Script.SpliceEdges

/-!
# The text of script in a program

Script is kept as pieces of text and expressions.  Its text is that of the pieces, one after the other, an
expression in parentheses where it would not hold together.  Trimming takes white space off the ends, as far as
there is no expression.

* `codeText`, `operandText` — the text of script and of an expression in it;
* `finishedText` — the text of script whose expressions are changed, as when they are simplified;
* `trimEnd_code`, `trimStart_code`, `dropComma_code` — what trimming and leaving out a comma take off it.
-/

namespace ComponentMarkup.Program

open ComponentMarkup.Text

/-- The characters that script is laid out as. -/
def codeText (code : Code) : List Char :=
  (chunkText (codeLayout code)).toList

/-- The characters that an expression is laid out as between script. -/
def operandText (e : Expr) : List Char :=
  (chunkText (parenthesized (bindsLoosely e) e.layout)).toList

/-- Script with its expressions changed by a function. -/
def Code.mapExprs (f : Expr → Expr) (code : Code) : Code :=
  code.map fun
    | .text t o => .text t o
    | .expr e => .expr (f e)

/-- Simplified script has its expressions simplified. -/
theorem simplifyCode_eq (code : Code) : simplifyCode code = code.mapExprs simplify := by
  induction code with
  | nil => rfl
  | cons piece code ih =>
      cases piece with
      | text t o => exact congrArg (Piece.text t o :: ·) ih
      | expr e => exact congrArg (Piece.expr (simplify e) :: ·) ih

variable {f : Expr → Expr} {code : Code} {t : String} {o : Option Nat} {e : Expr}

theorem chunkText_append (xs ys : List Chunk) : chunkText (xs ++ ys) = chunkText xs ++ chunkText ys := by
  rw [chunkText, List.map_append, String.join_append]
  rfl

theorem codeLayout_append (code more : Code) : codeLayout (code ++ more) = codeLayout code ++ codeLayout more := by
  induction code with
  | nil => rfl
  | cons piece code ih => rw [List.cons_append, codeLayout, codeLayout, ih, List.append_assoc]

theorem codeText_append (code more : Code) : codeText (code ++ more) = codeText code ++ codeText more := by
  rw [codeText, codeLayout_append, chunkText_append, String.toList_append]
  rfl

theorem codeText_text : codeText [.text t o] = t.toList := by
  cases o with
  | none => simp [codeText, codeLayout, Piece.layout, marks, chunkText]
  | some n => simp [codeText, codeLayout, Piece.layout, marks, chunkText]

theorem codeText_expr : codeText [.expr e] = operandText e := by
  rw [codeText, codeLayout, codeLayout, List.append_nil]
  rfl

/-! ## Pieces changed by a function -/

/-- The text of script with its expressions changed. -/
def finishedText (f : Expr → Expr) (code : Code) : List Char :=
  codeText (code.mapExprs f)

@[simp] theorem finishedText_nil : finishedText f [] = [] :=
  rfl

theorem finishedText_append (code more : Code) :
    finishedText f (code ++ more) = finishedText f code ++ finishedText f more := by
  rw [finishedText, Code.mapExprs, List.map_append, codeText_append]
  rfl

theorem finishedText_text : finishedText f [.text t o] = t.toList :=
  codeText_text

theorem finishedText_expr : finishedText f [.expr e] = operandText (f e) :=
  codeText_expr

theorem finishedText_cons (piece : Piece) (code : Code) :
    finishedText f (piece :: code) = finishedText f [piece] ++ finishedText f code :=
  finishedText_append [piece] code

/-! ## Adding text -/

theorem finishedText_pushToken (code : Code) (text : String) (origin : Nat) :
    finishedText f (code.pushToken text origin) = finishedText f code ++ text.toList := by
  rw [Code.pushToken, finishedText_append, finishedText_text]

theorem finishedText_pushText (code : Code) (text : String) :
    finishedText f (code.pushText text) = finishedText f code ++ text.toList := by
  fun_induction Code.pushText code text with
  | case1 text => rw [finishedText_text, finishedText_nil, List.nil_append]
  | case2 t o text => rw [finishedText_text, finishedText_text, String.toList_append]
  | case3 piece code text _ ih => rw [finishedText_cons, ih, finishedText_cons piece code, List.append_assoc]

/-! ## The expressions in script -/

/-- The expressions in script. -/
def Code.exprs (code : Code) : List Expr :=
  code.filterMap fun
    | .text _ _ => none
    | .expr e => some e

@[simp] theorem exprs_nil : Code.exprs [] = [] :=
  rfl

@[simp] theorem exprs_text_cons : Code.exprs (.text t o :: code) = code.exprs :=
  rfl

@[simp] theorem exprs_expr_cons : Code.exprs (.expr e :: code) = e :: code.exprs :=
  rfl

theorem exprs_cons (piece : Piece) (code : Code) : Code.exprs (piece :: code) = Code.exprs [piece] ++ code.exprs := by
  cases piece <;> rfl

theorem exprs_append (code more : Code) : Code.exprs (code ++ more) = code.exprs ++ more.exprs :=
  List.filterMap_append

theorem exprs_pushToken (code : Code) (text : String) (origin : Nat) :
    (code.pushToken text origin).exprs = code.exprs := by
  rw [Code.pushToken, exprs_append, exprs_text_cons, exprs_nil, List.append_nil]

theorem exprs_pushText (code : Code) (text : String) : (code.pushText text).exprs = code.exprs := by
  fun_induction Code.pushText code text with
  | case1 text => rfl
  | case2 t o text => rfl
  | case3 piece code text _ ih => rw [exprs_cons, ih, ← exprs_cons]

/-- A text in front of script that trimming leaves nothing of is trimmed itself. -/
theorem Code.trimEnd_text (h : Code.trimEnd code = []) : Code.trimEnd (.text t o :: code) =
    if (Text.trimEnd t.toList).isEmpty then [] else [.text (String.ofList (Text.trimEnd t.toList)) o] := by
  rw [Code.trimEnd]
  exact h

/-- A piece in front of script that trimming leaves something of is kept, and an expression always is. -/
theorem Code.trimEnd_kept {piece : Piece} (h : Code.trimEnd code ≠ [] ∨ ∃ e, piece = .expr e) :
    Code.trimEnd (piece :: code) = piece :: Code.trimEnd code := by
  rw [Code.trimEnd]
  intro text origin hnil htext
  rcases h with hne | ⟨e, rfl⟩
  · exact hne hnil
  · exact Piece.noConfusion htext

theorem exprs_trimEnd (code : Code) : code.trimEnd.exprs = code.exprs := by
  induction code with
  | nil => rfl
  | cons piece code ih =>
      by_cases hnil : Code.trimEnd code = []
      · cases piece with
        | text t o =>
            rw [hnil] at ih
            rw [Code.trimEnd_text hnil, exprs_text_cons, ← ih]
            split
            · rfl
            · rfl
        | expr e => rw [Code.trimEnd_kept (.inr ⟨e, rfl⟩), exprs_cons, ih, ← exprs_cons]
      · rw [Code.trimEnd_kept (.inl hnil), exprs_cons, ih, ← exprs_cons]

theorem exprs_trimStart (code : Code) : code.trimStart.exprs = code.exprs := by
  fun_induction Code.trimStart code with
  | case1 t o code rest hempty ih => rw [ih, exprs_text_cons]
  | case2 t o code rest hempty => rfl
  | case3 code _ => rfl

theorem exprs_trim (code : Code) : code.trim.exprs = code.exprs := by
  rw [Code.trim, exprs_trimStart, exprs_trimEnd]

theorem exprs_dropComma (code : Code) : code.dropComma.exprs = code.exprs := by
  fun_induction Code.dropComma code with
  | case1 => rfl
  | case2 t o hlast => rfl
  | case3 t o hlast => rfl
  | case4 piece code _ ih => rw [exprs_cons, ih, ← exprs_cons]

/-! ## White space at the ends -/

open ComponentMarkup.Script

/-- The white space that trimming takes off the end of a text. -/
theorem trimEnd_text (cs : List Char) :
    ∃ back, cs = Text.trimEnd cs ++ back ∧ White back ∧ Trimmed (Text.trimEnd cs) := by
  refine ⟨(cs.reverse.takeWhile isWhitespace).reverse, ?_, ?_, ?_⟩
  · rw [Text.trimEnd, ← List.reverse_append, List.takeWhile_append_dropWhile, List.reverse_reverse]
  · intro c hc
    exact List.all_eq_true.mp List.all_takeWhile c (List.mem_reverse.mp hc)
  · intro c hc
    rw [Text.trimEnd, List.getLast?_reverse] at hc
    have hstop := List.head?_dropWhile_not isWhitespace cs.reverse
    rw [show (cs.reverse.dropWhile isWhitespace).head? = some c from hc] at hstop
    simpa using hstop

/-- The white space that trimming takes off the start of a text. -/
theorem trimStart_text (cs : List Char) : ∃ front, cs = front ++ Text.trimStart cs ∧ White front := by
  refine ⟨cs.takeWhile isWhitespace, List.takeWhile_append_dropWhile.symm, ?_⟩
  exact fun c hc => List.all_eq_true.mp List.all_takeWhile c hc

/-- Script of which every expression is laid out as a text that closes. -/
def AllClosed (f : Expr → Expr) (code : Code) : Prop :=
  ∀ e ∈ code.exprs, Closed (operandText (f e))

/-- Script whose last piece has a text that does not end in white space. -/
def Compact (f : Expr → Expr) (code : Code) : Prop :=
  ∀ piece ∈ code.getLast?, finishedText f [piece] ≠ [] ∧ Trimmed (finishedText f [piece])

/-- A piece in front does not matter for how script ends. -/
theorem Compact.cons {piece : Piece} (h : Compact f code) (hne : code ≠ []) : Compact f (piece :: code) := by
  intro last hlast
  rw [List.getLast?_cons_of_ne_nil hne] at hlast
  exact h last hlast

theorem Compact.ne_nil (h : Compact f code) (hne : code ≠ []) : finishedText f code ≠ [] := by
  rcases List.eq_nil_or_concat code with hnil | ⟨init, last, rfl⟩
  · exact absurd hnil hne
  · rw [List.concat_eq_append] at h ⊢
    rw [finishedText_append]
    exact fun hnil => (h last List.getLast?_concat).1 (List.append_eq_nil_iff.mp hnil).2

theorem Compact.trimmed (h : Compact f code) : Trimmed (finishedText f code) := by
  rcases List.eq_nil_or_concat code with rfl | ⟨init, last, rfl⟩
  · exact .nil
  · rw [List.concat_eq_append] at h ⊢
    obtain ⟨hne, hlast⟩ := h last List.getLast?_concat
    rw [finishedText_append]
    exact hlast.append hne

theorem Compact.single {piece : Piece} (hne : finishedText f [piece] ≠ [])
    (htrimmed : Trimmed (finishedText f [piece])) : Compact f [piece] := by
  intro last hlast
  rw [List.getLast?_singleton] at hlast
  obtain rfl := Option.some.inj hlast
  exact ⟨hne, htrimmed⟩

theorem AllClosed.tail {piece : Piece} (h : AllClosed f (piece :: code)) : AllClosed f code := by
  intro e he
  refine h e ?_
  rw [exprs_cons]
  exact List.mem_append_right _ he

/-- A text trimmed at its end, in front of script that is laid out as white space. -/
theorem trimEnd_text_code (hnil : Code.trimEnd code = []) (hwhite : White (finishedText f code)) :
    Compact f (Code.trimEnd (.text t o :: code)) ∧ ∃ back,
      finishedText f (.text t o :: code) = finishedText f (Code.trimEnd (.text t o :: code)) ++ back ∧
        White back := by
  obtain ⟨more, hmore, hmoreWhite, htrimmed⟩ := trimEnd_text t.toList
  have hboth : White (more ++ finishedText f code) := by
    intro c hc
    exact (List.mem_append.mp hc).elim (hmoreWhite c) (hwhite c)
  rw [Code.trimEnd_text hnil, finishedText_cons, finishedText_text]
  split
  · rename_i hempty
    refine ⟨fun piece hpiece => absurd hpiece (Option.not_mem_none piece), t.toList ++ finishedText f code, rfl, ?_⟩
    rw [hmore, List.isEmpty_iff.mp hempty, List.nil_append]
    exact hboth
  · rename_i hempty
    have hone : finishedText f [.text (String.ofList (Text.trimEnd t.toList)) o] = Text.trimEnd t.toList := by
      rw [finishedText_text, String.toList_ofList]
    refine ⟨.single ?_ ?_, more ++ finishedText f code, ?_, hboth⟩
    · rw [hone]
      exact fun hnil => hempty (List.isEmpty_iff.mpr hnil)
    · rw [hone]
      exact htrimmed
    · rw [hone, ← List.append_assoc, ← hmore]

/-- An expression that closes does not end in white space. -/
theorem Compact.expr (h : Closed (operandText (f e))) : Compact f [.expr e] := by
  obtain ⟨d, hd, hsolid, _⟩ := h.last_char
  refine .single ?_ ?_
  · rw [finishedText_expr]
    exact h.ne_nil
  · rw [finishedText_expr]
    intro c hc
    obtain rfl := Option.some.inj (hd.symm.trans hc)
    exact hsolid

/-- What trimming takes off the end of script. -/
theorem trimEnd_code (h : AllClosed f code) : Compact f code.trimEnd ∧
    ∃ back, finishedText f code = finishedText f code.trimEnd ++ back ∧ White back := by
  induction code with
  | nil =>
      refine ⟨?_, [], rfl, fun c hc => absurd hc List.not_mem_nil⟩
      exact fun piece hpiece => absurd hpiece (Option.not_mem_none piece)
  | cons piece code ih =>
      obtain ⟨hcompact, back, hback, hwhite⟩ := ih h.tail
      have hkept : Code.trimEnd (piece :: code) = piece :: Code.trimEnd code →
          finishedText f (piece :: code) = finishedText f (Code.trimEnd (piece :: code)) ++ back := by
        intro heq
        rw [heq, finishedText_cons, hback, finishedText_cons piece (Code.trimEnd code), List.append_assoc]
      by_cases hnil : Code.trimEnd code = []
      · cases piece with
        | text t o =>
            rw [hnil, finishedText_nil, List.nil_append] at hback
            rw [← hback] at hwhite
            exact trimEnd_text_code hnil hwhite
        | expr e =>
            have heq : Code.trimEnd (.expr e :: code) = _ := Code.trimEnd_kept (.inr ⟨e, rfl⟩)
            refine ⟨?_, back, hkept heq, hwhite⟩
            rw [heq, hnil]
            exact .expr (h e (by rw [exprs_expr_cons]; exact List.mem_cons_self))
      · have heq : Code.trimEnd (piece :: code) = _ := Code.trimEnd_kept (.inl hnil)
        refine ⟨?_, back, hkept heq, hwhite⟩
        rw [heq]
        exact hcompact.cons hnil

/-- The end of script that goes on ends as it does. -/
theorem Compact.tail {piece : Piece} (h : Compact f (piece :: code)) : Compact f code := by
  intro last hlast
  refine h last ?_
  rw [List.getLast?_cons, show code.getLast? = some last from hlast]
  rfl

/-- What trimming takes off the start of script. -/
theorem trimStart_code (h : Compact f code) : Compact f code.trimStart ∧
    ∃ front, finishedText f code = front ++ finishedText f code.trimStart ∧ White front := by
  fun_induction Code.trimStart code with
  | case1 t o code rest hempty ih =>
      obtain ⟨hcompact, front, hfront, hwhite⟩ := ih h.tail
      obtain ⟨more, hmore, hmoreWhite⟩ := trimStart_text t.toList
      refine ⟨hcompact, more ++ front, ?_, ?_⟩
      · rw [finishedText_cons, finishedText_text, hfront, List.append_assoc]
        congr 1
        rw [hmore, show Text.trimStart t.toList = [] from List.isEmpty_iff.mp hempty, List.append_nil]
      · intro c hc
        exact (List.mem_append.mp hc).elim (hmoreWhite c) (hwhite c)
  | case2 t o code rest hempty =>
      obtain ⟨front, hfront, hwhite⟩ := trimStart_text t.toList
      have hone : finishedText f [.text (String.ofList rest) o] = rest := by
        rw [finishedText_text, String.toList_ofList]
      refine ⟨?_, front, ?_, hwhite⟩
      · by_cases hnil : code = []
        · subst hnil
          obtain ⟨_, htrimmed⟩ := h (.text t o) rfl
          rw [finishedText_text, hfront] at htrimmed
          refine .single ?_ ?_
          · rw [hone]
            exact fun hnil => hempty (List.isEmpty_iff.mpr hnil)
          · rw [hone]
            exact htrimmed.right
        · exact h.tail.cons hnil
      · rw [finishedText_cons, finishedText_text, finishedText_cons (.text (String.ofList rest) o), hone,
          ← List.append_assoc, ← hfront]
  | case3 code _ => exact ⟨h, [], rfl, fun c hc => absurd hc List.not_mem_nil⟩

/-- What trimming takes off both ends of script. -/
theorem trim_code (h : AllClosed f code) : Compact f code.trim ∧
    ∃ front back, finishedText f code = front ++ finishedText f code.trim ++ back ∧ White front ∧ White back := by
  obtain ⟨hcompact, back, hback, hbackWhite⟩ := trimEnd_code h
  obtain ⟨hcompact', front, hfront, hfrontWhite⟩ := trimStart_code hcompact
  refine ⟨hcompact', front, back, ?_, hfrontWhite, hbackWhite⟩
  rw [hback, hfront]
  rfl

/-- Leaving out a comma leaves out the last character of the text if it is one. -/
theorem dropComma_code (h : Compact f code) (hclosed : AllClosed f code) :
    finishedText f code.dropComma = dropComma (finishedText f code) := by
  fun_induction Code.dropComma code with
  | case1 => rfl
  | case2 t o hlast =>
      rw [finishedText_text, finishedText_text, String.toList_ofList, dropComma, if_pos (beq_iff_eq.mp hlast)]
  | case3 t o hlast => rw [finishedText_text, dropComma, if_neg fun heq => hlast (beq_iff_eq.mpr heq)]
  | case4 piece code hmore ih =>
      by_cases hnil : code = []
      · subst hnil
        cases piece with
        | text t o => exact absurd rfl (hmore t o rfl)
        | expr e =>
            obtain ⟨d, hd, _, hcomma⟩ := (hclosed e List.mem_cons_self).last_char
            show finishedText f [.expr e] = _
            rw [finishedText_expr, dropComma, if_neg]
            rw [hd]
            exact fun heq => hcomma (Option.some.inj heq)
      · have hne := h.tail.ne_nil hnil
        rw [finishedText_cons, ih h.tail hclosed.tail, finishedText_cons piece code, dropComma, dropComma,
          List.getLast?_append_of_ne_nil _ hne]
        split
        · rw [List.dropLast_append_of_ne_nil hne]
        · rfl

/-- Blank script is laid out as white space. -/
theorem isBlank_code (h : code.isBlank = true) : White (finishedText f code) := by
  induction code with
  | nil => exact fun c hc => absurd hc List.not_mem_nil
  | cons piece code ih =>
      obtain ⟨hpiece, hothers⟩ := Bool.and_eq_true_iff.mp h
      rw [finishedText_cons]
      intro c hc
      rcases List.mem_append.mp hc with hc | hc
      · cases piece with
        | text t o =>
            rw [finishedText_text] at hc
            exact List.all_eq_true.mp hpiece c hc
        | expr e => exact absurd hpiece Bool.false_ne_true
      · exact ih hothers c hc

/-- Blank script that is trimmed is laid out as nothing. -/
theorem Compact.blank (h : Compact f code) (hblank : code.isBlank = true) :
    finishedText f code = [] := by
  have hwhite := isBlank_code (f := f) hblank
  cases hlast : (finishedText f code).getLast? with
  | none => exact List.getLast?_eq_none_iff.mp hlast
  | some c =>
      have hblack := h.trimmed c hlast
      rw [hwhite c (List.mem_of_getLast? hlast)] at hblack
      exact absurd hblack (Ne.symm Bool.false_ne_true)

end ComponentMarkup.Program
