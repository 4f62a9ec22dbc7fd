import ComponentMarkup.Document.Parse
import ComponentMarkup.Proofs.Markup.BlockHeight
import ComponentMarkup.Proofs.Script.ScriptHeight

/-!
# Documents nest only so deep

Blocks, regions of inline content, marks and commands each have a limit of their own, and so have the trees that are
grafted into each other.  Together they bound how many branches of documents a path through a tree can pass, in all
the trees that are mounted on it.  What would go deeper is an error.

* `graft_upTo` — grafting adds at most what is hosted;
* `hostNode_upTo` — what is hosted is only so high;
* `parse_bounded` — no tree that is read has more than `markupLimit` branches of documents on a path, and it is
  higher only by what branches of scripts follow each other.
-/

namespace ComponentMarkup.Document

open ComponentMarkup.Text ComponentMarkup.Tree ComponentMarkup.Markup ComponentMarkup.Script

variable {src : Source} {bound : Nat}

/-! ## Grafting -/

mutual

/-- Grafting adds at most what a node may host. -/
theorem graft_upTo {host : Choice → Node → Limited Node}
    (hhost : ∀ choice n, (host choice n).value.markupHeight ≤ n.markupHeight + bound) (overflow : Option Nat) :
    ∀ n : Node, (graft host overflow n).value.markupHeight ≤ n.markupHeight + bound
  | .leaf k t s => by
      rw [graft]
      split
      · exact Nat.le_add_right _ _
      · split
        · exact hhost _ _
        · exact Nat.le_add_right _ _
  | .fault m hs t s => Nat.le_add_right _ _
  | .inner k s h c b cs => by
      have hbelow := graftAll_upTo hhost none cs
      rw [graft]
      split
      · exact Nat.le_add_right _ _
      · split
        · exact hhost _ _
        · dsimp only
          split
          · exact Nat.le_add_right _ _
          · rw [Node.spanning, Node.markupHeight, Node.markupHeight, Nat.add_right_comm]
            exact Nat.add_le_add_right hbelow _

theorem graftAll_upTo {host : Choice → Node → Limited Node}
    (hhost : ∀ choice n, (host choice n).value.markupHeight ≤ n.markupHeight + bound) (overflow : Option Nat) :
    ∀ ns : List Node, Node.markupHeightOf (graftAll host overflow ns).value ≤ Node.markupHeightOf ns + bound
  | [] => Nat.zero_le _
  | n :: ns => by
      have hfirst := graft_upTo hhost overflow n
      have hothers := graftAll_upTo hhost (graft host overflow n).overflow ns
      rw [graftAll, Node.markupHeightOf, Node.markupHeightOf]
      omega

end

/-- What a standard grammar reads is only so high. -/
theorem grammar_upTo {name : String} {g : Grammar} (hg : GrammarSet.standard.get? name = some g) (s : Span)
    (entry : String) : (g.parse src s entry).value.markupHeight ≤ documentHeight := by
  have hmember : g ∈ [Grammar.markup, Grammar.script] := List.mem_of_find?_eq_some hg
  rcases List.mem_cons.mp hmember with rfl | hscript
  · show (if entry == "inline" then _ else _ : Limited Node).value.markupHeight ≤ _
    split
    · exact readInlineContent_upTo src s
    · exact readDocument_upTo src s
  · obtain rfl := List.mem_singleton.mp hscript
    exact Nat.le_trans (readNamed_flat src s entry) (Nat.zero_le _)

/-- **What is hosted is only so high**: each grammar adds one tree, and only so many are hosted inside each other. -/
theorem hostNode_upTo (levels : Nat) (path : List (Choice × Span)) (choice : Choice) (n : Node) :
    (hostNode .standard src levels path choice n).value.markupHeight ≤
      n.markupHeight + levels * (documentHeight + 1) := by
  induction levels generalizing path choice n with
  | zero =>
      rw [hostNode]
      split
      · exact Nat.le_add_right _ _
      · split
        · exact Nat.le_add_right _ _
        · exact Nat.le_add_right _ _
  | succ levels ih =>
      rw [hostNode]
      split
      · exact Nat.le_add_right _ _
      · rename_i g hg
        split
        · exact Nat.le_add_right _ _
        · dsimp only
          have hparsed : (g.parse src n.span choice.entry).value.markupHeight ≤ documentHeight := grammar_upTo hg _ _
          have hroot := graft_upTo (ih ((choice, n.span) :: path)) (g.parse src n.span choice.entry).overflow
            (g.parse src n.span choice.entry).value
          have hrank : n.kind.markupRank ≤ 1 := by
            cases n.kind <;> simp [Kind.markupRank]
          rw [Node.hosting, Node.spanning, Node.markupHeight, Node.markupHeightOf, Node.markupHeightOf, Nat.succ_mul,
            Nat.max_eq_left (Nat.zero_le _)]
          omega

/-! ## Documents -/

/-- How many branches of documents a path through a tree may pass. -/
def markupLimit : Nat := documentHeight + maxDepth * (documentHeight + 1)

theorem parseSource_upTo {root : Node} (h : parseSource .standard src = .ok root) :
    root.markupHeight ≤ markupLimit := by
  unfold parseSource at h
  cases hg : GrammarSet.standard.get? "markup" with
  | none => exact absurd hg (by decide)
  | some g =>
      rw [hg] at h
      dsimp only at h
      split at h
      · cases h
      · obtain rfl := Except.ok.inj h
        have hparsed : (g.parse src src.whole "document").value.markupHeight ≤ documentHeight := grammar_upTo hg _ _
        exact Nat.le_trans (graft_upTo (hostNode_upTo maxDepth []) _ _) (Nat.add_le_add_right hparsed _)

/-- The only error is nesting that is too deep. -/
theorem parseSource_error {e : ParseError} (h : parseSource .standard src = .error e) :
    e.what = "maximum nesting depth exceeded" := by
  unfold parseSource at h
  cases hg : GrammarSet.standard.get? "markup" with
  | none => exact absurd hg (by decide)
  | some g =>
      rw [hg] at h
      dsimp only at h
      split at h
      · obtain rfl := Except.error.inj h
        rfl
      · cases h

/-- **Documents nest only so deep.**  However long a text is, its tree has only so many branches of documents on a
path, those of the trees that are mounted on it included, or reading it fails since nesting is too deep.  So a tree is
only as high as the branches of scripts allow that follow each other on a path. -/
theorem parse_bounded (text : String) :
    (∃ root, parse text = .ok root ∧ root.markupHeight ≤ markupLimit ∧
      root.height ≤ (markupLimit + 1) * (root.scriptRun 0 + 1)) ∨
    ∃ e, parse text = .error e ∧ e.what = "maximum nesting depth exceeded" := by
  rw [parse, parseWith]
  cases h : parseSource .standard (Source.ofString text) with
  | error e => exact .inr ⟨e, rfl, parseSource_error h⟩
  | ok root =>
      have hmarkup : (root.inBytes (Source.ofString text).byteOffsets).markupHeight ≤ markupLimit :=
        Node.markupHeight_mapPlaces _ root ▸ parseSource_upTo h
      refine .inl ⟨_, rfl, hmarkup, Nat.le_trans (Node.height_le_run _) ?_⟩
      exact Nat.mul_le_mul_right _ (Nat.add_le_add_right hmarkup 1)

end ComponentMarkup.Document
