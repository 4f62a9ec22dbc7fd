import ComponentMarkup.Proofs.Document.ScriptRegion
import ComponentMarkup.Proofs.Program.CodeText
import ComponentMarkup.Render.Script

/-!
# Copied script

Copying script adds what is printed for each of its parts: tokens and white space as they are, a blank for a
comment between slashes and stars, nothing for one up to the end of its line, and an expression in the place of a
command.

* `scriptParts` — the parts of a script with what is printed for them;
* `copyTree_copied` — copying a script adds what is printed for its parts.
-/

namespace ComponentMarkup.Render

open ComponentMarkup.Text ComponentMarkup.Tree ComponentMarkup.Document ComponentMarkup.Program
open ComponentMarkup.Script

theorem Rendered.value_bind {α β : Type} (x : Rendered α) (g : α → Rendered β) :
    (x >>= g).value = (g x.value).value :=
  rfl

theorem Rendered.value_pure {α : Type} (a : α) : (pure a : Rendered α).value = a :=
  rfl

/-! ## Copying -/

variable {f : Expr → Expr} {render : Renderer}

/-- What is printed for an atom of script that a leaf stands for. -/
def printedFor (f : Expr → Expr) (render : Renderer) (n : Node) (a : Atom) : List Char :=
  match a.kind with
  | .lineComment => []
  | .blockComment => [' ']
  | .embed => operandText (f (embedded render n).value)
  | _ => a.chars

/-- The part of script that a leaf stands for. -/
def scriptPart? (f : Expr → Expr) (render : Renderer) (n : Node) : Option Script.Part :=
  n.atom?.map fun a => ⟨a, printedFor f render n a⟩

/-- The parts of script with what is printed for them. -/
def scriptParts (f : Expr → Expr) (render : Renderer) (n : Node) : List Script.Part :=
  n.tips.filterMap (scriptPart? f render)

/-- The parts of script are its atoms. -/
theorem scriptParts_toAtom (f : Expr → Expr) (render : Renderer) (n : Node) :
    (scriptParts f render n).map Script.Part.toAtom = n.atoms := by
  have hatom : ∀ t : Node, (scriptPart? f render t).map Script.Part.toAtom = t.atom? := by
    intro t
    rw [scriptPart?, Option.map_map]
    exact Option.map_id_apply
  rw [scriptParts, List.map_filterMap, Node.atoms]
  exact congrArg (List.filterMap · n.tips) (funext hatom)

/-- The parts of a branch are those of its children. -/
theorem scriptParts_inner {k : Kind} (hk : k ≠ .script .embed) {s : Span} {host : Option Choice} {count : Nat}
    {faulty : Bool} {children : List Node} :
    scriptParts f render (.inner k s host count faulty children) = children.flatMap (scriptParts f render) := by
  have hkind : (k == .script .embed) = false := beq_eq_false_iff_ne.mpr hk
  rw [scriptParts, Node.tips, hkind, if_neg Bool.false_ne_true, Node.tipsOf_eq, List.filterMap_flatMap]
  rfl

/-- The expression that a leaf becomes if it is a command. -/
def scriptExpr? (render : Renderer) (n : Node) : Option Expr :=
  if n.kind == .script .embed then some (embedded render n).value else none

/-- Script to which the parts of a tree were added. -/
structure Copied (f : Expr → Expr) (render : Renderer) (tips : List Node) (code copied : Code) : Prop where
  text : finishedText f copied = finishedText f code ++ printedText (tips.filterMap (scriptPart? f render))
  exprs : copied.exprs = code.exprs ++ tips.filterMap (scriptExpr? render)

theorem Copied.nil (code : Code) : Copied f render [] code code :=
  ⟨(List.append_nil _).symm, (List.append_nil _).symm⟩

theorem Copied.append {ts us : List Node} {code more most : Code} (h : Copied f render ts code more)
    (h' : Copied f render us more most) : Copied f render (ts ++ us) code most := by
  refine ⟨?_, ?_⟩
  · rw [h'.text, h.text, List.filterMap_append, printedText_append, List.append_assoc]
  · rw [h'.exprs, h.exprs, List.filterMap_append, List.append_assoc]

/-- A leaf of script as it should be: of a script kind, and not empty if it is a command. -/
def IsTip (t : Node) : Prop :=
  ∃ k, t.kind = .script k ∧ (k = .embed → t.fullText.isEmpty = false)

/-- The text printed for one leaf. -/
theorem printedText_single {t : Node} {a : Atom} (h : t.atom? = some a) :
    printedText ([t].filterMap (scriptPart? f render)) = printedFor f render t a := by
  have hpart : scriptPart? f render t = some ⟨a, printedFor f render t a⟩ := by rw [scriptPart?, h]; rfl
  rw [List.filterMap_cons_some hpart, List.filterMap_nil, printedText, List.flatMap_cons, List.flatMap_nil,
    List.append_nil]

/-- An embedded command becomes an expression. -/
theorem Copied.command {t : Node} (h : IsTip t) (hkind : t.kind = .script .embed) (code : Code) :
    Copied f render [t] code (code ++ [.expr (embedded render t).value]) := by
  obtain ⟨k, hk, hne⟩ := h
  obtain rfl : k = .embed := Kind.script.inj (hk.symm.trans hkind)
  have hatom : t.atom? = some ⟨.embed, t.fullText.toList⟩ := by
    rw [Node.atom?, hkind]
    dsimp only
    rw [hne rfl]
    rfl
  have hexpr : scriptExpr? render t = some (embedded render t).value := by
    rw [scriptExpr?, hkind]
    rfl
  refine ⟨?_, ?_⟩
  · rw [finishedText_append, finishedText_expr, printedText_single hatom]
    rfl
  · rw [exprs_append, List.filterMap_cons_some hexpr]
    rfl

/-- A token, white space or a comment is copied as it is printed. -/
theorem Copied.token {k : ScriptKind} (hk : k ≠ .embed) (text : String) (s : Span) (code : Code) :
    Copied f render [.leaf (.script k) text s] code (copyToken (.script k) text s.start code).value := by
  have hfull : (Node.leaf (.script k) text s).fullText = text := by
    simp [Node.fullText, Node.leaves, Node.text]
  have hexpr : scriptExpr? render (.leaf (.script k) text s) = none := by
    rw [scriptExpr?, if_neg]
    exact fun heq => hk (Kind.script.inj (beq_iff_eq.mp heq))
  by_cases hempty : text.isEmpty = true
  · have hnone : scriptPart? f render (.leaf (.script k) text s) = none := by
      rw [scriptPart?, Node.atom?, hfull]
      simp [Node.kind, hempty]
    unfold copyToken
    rw [if_pos hempty]
    refine ⟨?_, ?_⟩
    · rw [List.filterMap_cons_none hnone]
      exact (List.append_nil _).symm
    · rw [List.filterMap_cons_none hexpr]
      exact (List.append_nil _).symm
  · have hatom : (Node.leaf (.script k) text s).atom? = some ⟨k, text.toList⟩ := by
      rw [Node.atom?, hfull]
      simp [Node.kind, hempty]
    have hkeep : ∀ {copied : Code}, copied.exprs = code.exprs →
        finishedText f copied = finishedText f code ++
          printedFor f render (.leaf (.script k) text s) ⟨k, text.toList⟩ →
        Copied f render [.leaf (.script k) text s] code copied := by
      intro copied hexprs htext
      refine ⟨?_, ?_⟩
      · rw [printedText_single hatom, htext]
      · rw [hexprs, List.filterMap_cons_none hexpr]
        exact (List.append_nil _).symm
    have htoken := exprs_pushToken code text s.start
    unfold copyToken
    rw [if_neg hempty]
    split
    · rename_i hkind
      obtain rfl := Kind.script.inj hkind
      exact hkeep (exprs_pushText code text) (finishedText_pushText code text)
    · rename_i hkind
      obtain rfl := Kind.script.inj hkind
      exact hkeep rfl (List.append_nil _).symm
    · rename_i hkind
      obtain rfl := Kind.script.inj hkind
      exact hkeep (exprs_pushText code " ") (finishedText_pushText code " ")
    · rename_i hkind
      obtain rfl := Kind.script.inj hkind
      have hcopied : Copied f render [.leaf (.script .ident) text s] code (code.pushToken text s.start) :=
        hkeep htoken (finishedText_pushToken code text s.start)
      dsimp only
      split
      · exact hcopied
      · exact hcopied
    · rename_i hspace hline hblock _
      refine hkeep htoken ((finishedText_pushToken code text s.start).trans ?_)
      unfold printedFor
      split
      · rename_i hkind
        exact absurd (congrArg Kind.script hkind) hline
      · rename_i hkind
        exact absurd (congrArg Kind.script hkind) hblock
      · rename_i hkind
        exact absurd hkind hk
      · rfl

mutual

/-- **Copying script adds what is printed for its parts.** -/
theorem copyTree_copied : ∀ (n : Node) (code : Code), (∀ t ∈ n.tips, IsTip t) →
    Copied f render n.tips code (copyTree render n code).value
  | .fault message hints text s, code, h => by
      obtain ⟨k, hk, _⟩ := h _ (List.mem_singleton.mpr rfl)
      exact absurd hk (by simp [Node.kind])
  | .leaf kind text s, code, h => by
      have htip := h _ (List.mem_singleton.mpr rfl)
      unfold copyTree
      split
      · rename_i hembed
        exact .command htip (beq_iff_eq.mp hembed) code
      · rename_i hembed
        obtain ⟨k, hk, _⟩ := htip
        obtain rfl : kind = .script k := hk
        exact .token (fun heq => hembed (by rw [heq]; rfl)) text s code
  | .inner kind s host count faulty children, code, h => by
      unfold copyTree
      split
      · rename_i hembed
        rw [Node.tips, if_pos hembed] at h ⊢
        exact .command (h _ (List.mem_singleton.mpr rfl)) (beq_iff_eq.mp hembed) code
      · rename_i hembed
        rw [Node.tips, if_neg hembed] at h ⊢
        exact copyTrees_copied children code h

/-- Copying several trees adds what is printed for the parts of each. -/
theorem copyTrees_copied : ∀ (ns : List Node) (code : Code), (∀ t ∈ Node.tipsOf ns, IsTip t) →
    Copied f render (Node.tipsOf ns) code (copyTrees render ns code).value
  | [], code, _ => .nil code
  | n :: ns, code, h => by
      have hfirst := copyTree_copied n code fun t ht => h t (List.mem_append_left _ ht)
      have hothers := copyTrees_copied ns (copyTree render n code).value
        fun t ht => h t (List.mem_append_right _ ht)
      exact hfirst.append hothers

end

end ComponentMarkup.Render
