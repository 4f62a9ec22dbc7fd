import ComponentMarkup.Proofs.Render.CopiedText
import ComponentMarkup.Render.Markup

/-!
# Rendered script keeps its tokens

A script of a document is rendered as a statement, an expression or a list of attributes.  The tokens of what is
laid out for it are those of the script, with the tokens of the expressions in the place of the commands embedded
in it, and tokens on different lines stay on different lines.  Two things are needed: each expression must be a
text of whole tokens, and no word may touch it that it goes on with.

* `Spliceable` — commands of a script whose expressions fit in their places;
* `splicedTokens` — the tokens of a script with those of the expressions;
* `spliced_tokens` — the tokens of what is rendered for a script of a document.
-/

namespace ComponentMarkup.Render

open ComponentMarkup.Text ComponentMarkup.Tree ComponentMarkup.Document ComponentMarkup.Program
open ComponentMarkup.Script

variable {f : Expr → Expr} {render : Renderer} {n root host : Node} {rest : List Char}

/-- Commands of a script whose expressions are whole tokens, with no word next to them that goes on with them. -/
structure Spliceable (f : Expr → Expr) (render : Renderer) (n : Node) : Prop where
  operands : ∀ p ∈ scriptParts f render n, p.kind = .embed → IsOperand p.printed
  separate : Separate (scriptParts f render n)

/-- The tokens of a script with those of the expressions in the place of its commands.  The start of the script
counts as that of a line, and so does white space with a line end. -/
def splicedTokens (f : Expr → Expr) (render : Renderer) (n : Node) : List Token :=
  splice true (scriptParts f render n)

/-- The tokens of what script is laid out as. -/
def printedTokens (f : Expr → Expr) (code : Code) : List Token :=
  tokensOf true (finishedText f code)

/-! ## Parts of a region -/

/-- What is printed for the parts of a script is as it should be if its expressions are. -/
theorem scriptParts_printed (h : Spliceable f render n) : ∀ p ∈ scriptParts f render n, p.Printed := by
  intro p hp
  have hoperand := h.operands p hp
  obtain ⟨t, _, hpart⟩ := List.mem_filterMap.mp hp
  obtain ⟨⟨kind, chars⟩, _, rfl⟩ := Option.map_eq_some_iff.mp hpart
  cases kind
  case embed => exact hoperand rfl
  all_goals rfl

/-- Legible atoms are spelled parts if what is printed for them is as it should be. -/
theorem spelled_of_legible {ps : List Script.Part} (h : Legible (ps.map Script.Part.toAtom) rest)
    (hprinted : ∀ p ∈ ps, p.Printed) : Spelled ps rest := by
  induction ps with
  | nil => trivial
  | cons p ps ih =>
      exact ⟨h.1, hprinted p List.mem_cons_self, ih h.2 fun q hq => hprinted q (List.mem_cons_of_mem p hq)⟩

/-- The parts of a region are spelled. -/
theorem region_spelled (h : Region n rest) (hsplice : Spliceable f render n) :
    Spelled (scriptParts f render n) rest := by
  refine spelled_of_legible ?_ (scriptParts_printed hsplice)
  rw [scriptParts_toAtom]
  exact h.legible

/-- A command of a region is one of its parts. -/
theorem region_command (h : Region n rest) {t : Node} (ht : t ∈ n.tips) (hkind : t.kind = .script .embed) :
    (⟨⟨.embed, t.fullText.toList⟩, operandText (f (embedded render t).value)⟩ : Script.Part) ∈
      scriptParts f render n := by
  obtain ⟨k, hk, hne⟩ := h.tips t ht
  obtain rfl : k = .embed := Kind.script.inj (hk.symm.trans hkind)
  have hatom : t.atom? = some ⟨.embed, t.fullText.toList⟩ := by
    rw [Node.atom?, hkind]
    dsimp only
    rw [hne rfl]
    rfl
  refine List.mem_filterMap.mpr ⟨t, ht, ?_⟩
  rw [scriptPart?, hatom]
  rfl

/-- The expressions of a copied region are those of its commands. -/
theorem copied_expr (h : Region n rest) {e : Expr} (he : e ∈ Code.exprs (copyTree render n []).value) :
    ∃ t ∈ n.tips, t.kind = .script .embed ∧ e = (embedded render t).value := by
  have hcopied : Copied id render n.tips [] (copyTree render n []).value := copyTree_copied n [] h.tips
  rw [hcopied.exprs, exprs_nil, List.nil_append] at he
  obtain ⟨t, ht, hexpr⟩ := List.mem_filterMap.mp he
  unfold scriptExpr? at hexpr
  split at hexpr
  · rename_i hkind
    exact ⟨t, ht, beq_iff_eq.mp hkind, (Option.some.inj hexpr).symm⟩
  · exact absurd hexpr (Option.some_ne_none e).symm

/-- The expressions of a copied region close. -/
theorem copied_closed (h : Region n rest) (hsplice : Spliceable f render n) :
    AllClosed f (copyTree render n []).value := by
  intro e he
  obtain ⟨t, ht, hkind, rfl⟩ := copied_expr h he
  exact (hsplice.operands _ (region_command h ht hkind) rfl).closed

/-- The text of a copied region is what is printed for its parts. -/
theorem copied_text (h : Region n rest) :
    finishedText f (copyTree render n []).value = printedText (scriptParts f render n) := by
  have hcopied : Copied f render n.tips [] (copyTree render n []).value := copyTree_copied n [] h.tips
  rw [hcopied.text, finishedText_nil, List.nil_append]
  rfl

/-! ## Statements, expressions and lists -/

/-- The script that a statement is rendered as: gathered if it is an import or an export, given back otherwise. -/
def RenderedAs (render : Renderer) (n : Node) (code : Code) : Prop :=
  if n.isScript .importDecl then (statement render n).needs.imports.getLast? = some code
  else if n.isScript .exportDecl then (statement render n).needs.exports.getLast? = some code
  else (statement render n).value = some code

/-- A statement is rendered as its copied script without the white space at its end. -/
theorem statement_renderedAs (render : Renderer) (n : Node) :
    RenderedAs render n (Code.trimEnd (copyTree render n []).value) := by
  unfold RenderedAs
  split
  · rename_i himport
    unfold statement
    simp only [himport, if_true]
    exact List.getLast?_concat
  · rename_i himport
    split
    · rename_i hexport
      unfold statement
      simp only [himport, hexport, if_true, if_false, Bool.false_eq_true]
      exact List.getLast?_concat
    · rename_i hexport
      unfold statement
      simp only [himport, hexport, if_false, Bool.false_eq_true]
      rfl

/-- The tokens of a statement. -/
theorem statement_tokens (h : Region n rest) (hsplice : Spliceable f render n) :
    printedTokens f (Code.trimEnd (copyTree render n []).value) = splicedTokens f render n := by
  obtain ⟨hcompact, back, hback, hwhite⟩ := trimEnd_code (copied_closed h hsplice)
  have hcore : Core (scriptParts f render n) []
      (finishedText f (Code.trimEnd (copyTree render n []).value)) back := by
    refine ⟨?_, fun c hc => absurd hc List.not_mem_nil, hcompact.trimmed, hwhite⟩
    rw [List.nil_append, ← hback, copied_text h]
  exact hcore.tokens (region_spelled h hsplice) hsplice.separate

/-- What is printed for a region, and the white space around it. -/
theorem region_core (h : Region root rest) (hsplice : Spliceable f render root) :
    Compact f (Code.trim (copyTree render root []).value) ∧
      ∃ front back, Core (scriptParts f render root) front
        (finishedText f (Code.trim (copyTree render root []).value)) back := by
  obtain ⟨hcompact, front, back, htext, hfront, hback⟩ := trim_code (copied_closed h hsplice)
  refine ⟨hcompact, front, back, ?_, hfront, hcompact.trimmed, hback⟩
  rw [← htext, copied_text h]

/-- What an expression with the given tokens is rendered as: nothing if there are none, the expression of a
command if it stands alone, and script otherwise. -/
def ExprTokens (f : Expr → Expr) (render : Renderer) (root : Node) (tokens : List Token) : Option Expr → Prop
  | none => tokens = []
  | some e =>
    (∃ code origin, e = (Expr.bare (.code code)).located origin ∧ printedTokens f code = tokens) ∨
      ∃ t ∈ root.tips, t.kind = .script .embed ∧ e = (embedded render t).value ∧
        tokensOf true (operandText (f e)) = tokens

/-- What a list with the given tokens is rendered as. -/
def MembersTokens (f : Expr → Expr) (tokens : List Token) : List Member → Prop
  | [] => tokens = []
  | [.code code] => printedTokens f code = tokens
  | _ => False

/-- The tokens of an expression. -/
theorem hostedExpr_tokens (hroot : host.hostedRoot? = some root) (h : Region root rest)
    (hsplice : Spliceable f render root) :
    ExprTokens f render root (splicedTokens f render root) (hostedExpr render host).value := by
  obtain ⟨hcompact, front, back, hcore⟩ := region_core h hsplice
  have htokens : printedTokens f (Code.trim (copyTree render root []).value) = splicedTokens f render root :=
    hcore.tokens (region_spelled h hsplice) hsplice.separate
  have hexprs : ∀ e ∈ Code.exprs (Code.trim (copyTree render root []).value),
      ∃ t ∈ root.tips, t.kind = .script .embed ∧ e = (embedded render t).value := by
    intro e he
    rw [exprs_trim] at he
    exact copied_expr h he
  unfold hostedExpr
  rw [hroot]
  dsimp only [Rendered.value_bind]
  generalize Code.trim (copyTree render root []).value = code at hcompact htokens hexprs
  split
  · rename_i hblank
    rw [← htokens, printedTokens, hcompact.blank hblank]
    rfl
  · split
    · rename_i e _
      obtain ⟨t, ht, hkind, hexpr⟩ := hexprs e List.mem_cons_self
      refine .inr ⟨t, ht, hkind, hexpr, ?_⟩
      rw [← htokens, printedTokens, finishedText_expr]
    · exact .inl ⟨code, host.start, rfl, htokens⟩

/-- The tokens of a list of attributes, less a comma at its end. -/
theorem hostedMembers_tokens (hroot : host.hostedRoot? = some root) (h : Region root rest)
    (hsplice : Spliceable f render root) :
    MembersTokens f (withoutComma (splicedTokens f render root)) (hostedMembers render host).value := by
  obtain ⟨hcompact, front, back, hcore⟩ := region_core h hsplice
  have hclosed : AllClosed f (Code.trim (copyTree render root []).value) := by
    intro e he
    rw [exprs_trim] at he
    exact copied_closed h hsplice e he
  have hdropped := dropComma_code hcompact hclosed
  have hlist : AllClosed f (Code.dropComma (Code.trim (copyTree render root []).value)) := by
    intro e he
    rw [exprs_dropComma] at he
    exact hclosed e he
  obtain ⟨hcompact', front', back', htext, hfront, hback⟩ := trim_code hlist
  have htokens : printedTokens f (Code.trim (Code.dropComma (Code.trim (copyTree render root []).value))) =
      withoutComma (splicedTokens f render root) :=
    hcore.list_tokens (region_spelled h hsplice) hsplice.separate (hdropped.symm.trans htext) hfront
      hcompact'.trimmed hback
  unfold hostedMembers
  rw [hroot]
  dsimp only [Rendered.value_bind, Rendered.value_pure]
  generalize Code.trim (Code.dropComma (Code.trim (copyTree render root []).value)) = code at hcompact' htokens
  split
  · rename_i hblank
    rw [← htokens, printedTokens, hcompact'.blank hblank]
    rfl
  · exact htokens

/-! ## Scripts of a document -/

/-- Commands of a part of a script fit in their places if those of the script do. -/
theorem Spliceable.child (h : Spliceable f render root) (hkind : root.kind ≠ .script .embed)
    (hn : n ∈ root.children) : Spliceable f render n := by
  cases root with
  | leaf => exact absurd hn List.not_mem_nil
  | fault => exact absurd hn List.not_mem_nil
  | inner k s c count faulty children =>
      obtain ⟨before, after, rfl⟩ := List.append_of_mem (show n ∈ children from hn)
      have hk : k ≠ .script .embed := hkind
      have hparts : scriptParts f render (.inner k s c count faulty (before ++ n :: after)) =
          before.flatMap (scriptParts f render) ++ (scriptParts f render n ++ after.flatMap (scriptParts f render)) := by
        rw [scriptParts_inner hk, List.flatMap_append, List.flatMap_cons]
      refine ⟨fun p hp => h.operands p ?_, ?_⟩
      · rw [hparts]
        exact List.mem_append_right _ (List.mem_append_left _ hp)
      · have hseparate := h.separate
        rw [hparts] at hseparate
        exact (List.IsChain.right_of_append hseparate).left_of_append

/-- **The tokens of what is rendered for a script of a document are those of the script**, with the tokens of the
expressions in the place of its commands, and on the same lines: for every statement, for the whole as an
expression, and for the whole as a list of attributes without a comma at its end. -/
theorem spliced_tokens {src : Source} {s : Span} {levels : Nat} {path : List (Choice × Span)}
    {overflow : Option Nat} (hle : s.start ≤ s.stop) (hstop : s.stop ≤ src.size) (entry : Entry)
    (place : Nat → Nat)
    (hroot : root = (graftedScript .standard src levels path overflow s entry).mapPlaces place)
    (hhost : host.hostedRoot? = some root) (hclean : root.faulty = false)
    (hsplice : Spliceable f render root) :
    (∀ n ∈ root.children, ∃ code, RenderedAs render n code ∧
      printedTokens f code = splicedTokens f render n) ∧
    ExprTokens f render root (splicedTokens f render root) (hostedExpr render host).value ∧
    MembersTokens f (withoutComma (splicedTokens f render root)) (hostedMembers render host).value := by
  subst hroot
  rw [Node.faulty_mapPlaces] at hclean
  have hregion := (graftedScript_region standard_faithful hle hstop entry hclean).mapPlaces place
  have hkind : ((graftedScript .standard src levels path overflow s entry).mapPlaces place).kind ≠
      .script .embed := by
    rw [Node.kind_mapPlaces]
    exact graftedScript_kind entry
  refine ⟨fun n hn => ?_, hostedExpr_tokens hhost hregion hsplice, hostedMembers_tokens hhost hregion hsplice⟩
  obtain ⟨rest', hchild⟩ := hregion.child hkind hn
  exact ⟨_, statement_renderedAs render n, statement_tokens hchild (hsplice.child hkind hn)⟩

/-- A call whose argument is a command, as a script of a document. -/
def callScript : Node :=
  (graftedScript .standard (Source.ofString "f(#x)") maxDepth [] none ⟨0, 5⟩ .statements).mapPlaces id

/-- The call keeps its tokens, with the name that the command stands for as its argument. -/
theorem spliced_tokens_call : callScript.faulty = false ∧ Spliceable simplify (renderNode {} 4) callScript ∧
    ∃ n ∈ callScript.children, ∃ code, RenderedAs (renderNode {} 4) n code ∧
      printedTokens simplify code = splicedTokens simplify (renderNode {} 4) n := by
  have hclean : callScript.faulty = false := by decide +kernel
  have hparts : scriptParts simplify (renderNode {} 4) callScript =
      [⟨⟨.ident, ['f']⟩, ['f']⟩, ⟨⟨.leftParen, ['(']⟩, ['(']⟩, ⟨⟨.embed, ['#', 'x']⟩, ['x']⟩,
        ⟨⟨.rightParen, [')']⟩, [')']⟩] := by decide +kernel
  have hname : IsOperand ['x'] := by
    have htoken : lexeme [] 'x' [] = ⟨.ok .ident, 1⟩ := by
      rw [lexeme_wordStart (by decide)]
      rfl
    exact ⟨.last (.inl (by decide)) htoken, starts_cons.mpr (by decide)⟩
  have hsplice : Spliceable simplify (renderNode {} 4) callScript := by
    refine ⟨fun p hp hk => ?_, ?_⟩
    · rw [hparts] at hp
      have hcommand : p = ⟨⟨.embed, ['#', 'x']⟩, ['x']⟩ := by
        simp only [List.mem_cons, List.not_mem_nil, or_false] at hp
        rcases hp with rfl | rfl | rfl | rfl
        · exact absurd hk (by decide)
        · exact absurd hk (by decide)
        · rfl
        · exact absurd hk (by decide)
      rw [hcommand]
      exact hname
    · have hopen : ∀ {rest : List Char}, Apart ['('] rest := by
        intro rest c hc hword
        obtain rfl := Option.some.inj hc
        exact absurd hword (by decide)
      have hclose : ∀ {cs : List Char}, Apart cs [')'] := fun _ _ _ => starts_cons.mpr (by decide)
      rw [hparts]
      simp [Separate, List.isChain_cons_cons, hopen, hclose]
  have hchild : 0 < callScript.children.length := by decide +kernel
  let host : Node := .hosting (.markup .scriptBody) ⟨0, 5⟩ ⟨"script", "statements"⟩ callScript
  have hhost : host.hostedRoot? = some callScript := rfl
  have hall := (spliced_tokens (by decide) (by decide +kernel) .statements id rfl hhost hclean hsplice).1
  exact ⟨hclean, hsplice, callScript.children[0], List.getElem_mem hchild, hall _ (List.getElem_mem hchild)⟩

/-- A word in front of a command goes on with the name that the command stands for. -/
def gluedScript : Node :=
  (graftedScript .standard (Source.ofString "f(typeof#x)") maxDepth [] none ⟨0, 11⟩ .statements).mapPlaces id

/-- With a word right in front of its command the call does not keep its tokens. -/
theorem spliced_tokens_glued : gluedScript.faulty = false ∧
    ∃ n ∈ gluedScript.children, ∃ code, RenderedAs (renderNode {} 4) n code ∧
      printedTokens simplify code ≠ splicedTokens simplify (renderNode {} 4) n := by
  have hchild : 0 < gluedScript.children.length := by decide +kernel
  refine ⟨by decide +kernel, gluedScript.children[0], List.getElem_mem hchild, _,
    statement_renderedAs (renderNode {} 4) _, ?_⟩
  revert hchild
  decide +kernel

end ComponentMarkup.Render
