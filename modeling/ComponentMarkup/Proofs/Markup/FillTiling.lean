import ComponentMarkup.Markup.Block
import ComponentMarkup.Proofs.Markup.HeadTiling
import ComponentMarkup.Proofs.Text.Lines

/-!
# Gaps between nodes

The nodes of a block are in order but do not touch: line ends, indentation and markers of quotations lie
between them.  Filling the gaps makes a run of them.

* `Spread` — nodes in order, with gaps;
* `fill_run` — nodes with their gaps filled cover everything between two places;
* `filled_run`, `enclosing_run` — so do the branches over them;
* `BlockEnv.Sound` — what the block rules rely on.
-/

namespace ComponentMarkup.Markup

open ComponentMarkup.Text ComponentMarkup.Tree

variable {src : Source} {lo hi : Nat} {nodes : List Node}

/-- Trees between two places, each behind the one before it. -/
def Spread (src : Source) (lo hi : Nat) : List Node → Prop
  | [] => lo ≤ hi
  | node :: nodes => lo ≤ node.start ∧ node.Fits src ∧ Spread src node.stop hi nodes

/-- Where the last of several nodes ends, or the given place if there is none. -/
def lastEnd (place : Nat) (nodes : List Node) : Nat :=
  (nodes.getLast?.map Node.stop).getD place

/-- The last node of a list with a node in front. -/
theorem lastEnd_cons (place : Nat) (node : Node) (nodes : List Node) :
    lastEnd place (node :: nodes) = lastEnd node.stop nodes := by
  cases nodes with
  | nil => rfl
  | cons next nodes =>
      unfold lastEnd
      rw [List.getLast?_cons_cons, List.getLast?_eq_some_getLast (List.cons_ne_nil next nodes)]
      rfl

namespace Spread

theorem le (h : Spread src lo hi nodes) : lo ≤ hi := by
  induction nodes generalizing lo with
  | nil => exact h
  | cons node nodes ih =>
      obtain ⟨hstart, hnode, hnodes⟩ := h
      have hle := hnode.le
      have hrest := ih hnodes
      omega

theorem mono {lo' hi' : Nat} (h : Spread src lo hi nodes) (hlo : lo' ≤ lo) (hhi : hi ≤ hi') :
    Spread src lo' hi' nodes := by
  induction nodes generalizing lo lo' with
  | nil => exact Nat.le_trans hlo (Nat.le_trans h hhi)
  | cons node nodes ih => exact ⟨Nat.le_trans hlo h.1, h.2.1, ih h.2.2 (Nat.le_refl _)⟩

theorem append {mid : Nat} {xs ys : List Node} (hx : Spread src lo mid xs)
    (hy : Spread src mid hi ys) : Spread src lo hi (xs ++ ys) := by
  induction xs generalizing lo with
  | nil => exact hy.mono hx (Nat.le_refl _)
  | cons x xs ih => exact ⟨hx.1, hx.2.1, ih hx.2.2⟩

theorem ofRun (h : Run src.Holds lo hi nodes) : Spread src lo hi nodes := by
  induction nodes generalizing lo with
  | nil => exact Nat.le_of_eq h.chain
  | cons node nodes ih =>
      obtain ⟨hstart, hnode, hrest⟩ := h.of_cons
      exact ⟨Nat.le_of_eq hstart.symm, hnode, ih hrest⟩

theorem leaf {kind : MarkupKind} {a b : Nat} (hlo : lo ≤ a) (hab : a ≤ b) (hhi : b ≤ hi)
    (hb : b ≤ src.size) : Spread src lo hi [leafOf src kind a b] :=
  (ofRun (leafOf_run hab hb)).mono hlo hhi

/-- A leaf, or none. -/
theorem leafIf {c : Prop} [Decidable c] {kind : MarkupKind} {a b : Nat} (hlo : lo ≤ hi)
    (h : c → lo ≤ a ∧ a ≤ b ∧ b ≤ hi ∧ b ≤ src.size) :
    Spread src lo hi (if c then [leafOf src kind a b] else []) := by
  split
  · rename_i hc
    obtain ⟨ha, hab, hbhi, hb⟩ := h hc
    exact leaf ha hab hbhi hb
  · exact hlo

/-- Nodes end where the last of them ends. -/
theorem narrow (h : Spread src lo hi nodes) :
    Spread src lo (lastEnd lo nodes) nodes ∧ lastEnd lo nodes ≤ hi := by
  induction nodes generalizing lo with
  | nil => exact ⟨Nat.le_refl lo, h⟩
  | cons node nodes ih =>
      obtain ⟨hrest, hle⟩ := ih h.2.2
      rw [lastEnd_cons]
      exact ⟨⟨h.1, h.2.1, hrest⟩, hle⟩

end Spread

/-! ## Filling -/

/-- The leaves of a gap cover it. -/
theorem gapLeaves_run {start place stop : Nat} {cs : List Char} (hcs : cs = src.slice place stop)
    (hstart : start ≤ place) (hplace : place ≤ stop) (hstop : stop ≤ src.size) :
    Run src.Holds start stop (gapLeaves src start place cs) := by
  induction cs generalizing start place with
  | nil =>
      have hlen := src.length_slice (i := place) hstop
      rw [← hcs, List.length_nil] at hlen
      obtain rfl : place = stop := by omega
      exact optionalLeaf_run hstart hstop
  | cons c cs ih =>
      have hlt := src.lt_of_slice_cons hcs.symm
      have htail := src.slice_tail hcs.symm
      unfold gapLeaves
      split
      · have hspace : Run src.Holds start place
            (if start < place then [leafOf src .space start place] else []) :=
          optionalLeaf_run hstart (by omega)
        have hmarker : Run src.Holds place (place + 1)
            [leafOf src .quoteMarker place (place + 1)] := leafOf_run (by omega) (by omega)
        exact hspace.append (hmarker.append (ih htail.symm (Nat.le_refl _) hlt))
      · exact ih htail.symm (by omega) hlt

/-- A gap is covered by its leaves. -/
theorem gap_run {start stop : Nat} (hle : start ≤ stop) (hstop : stop ≤ src.size) :
    Run src.Holds start stop (gap src start stop) := by
  unfold gap
  split
  · exact gapLeaves_run rfl (Nat.le_refl _) hle hstop
  · obtain rfl : start = stop := by omega
    exact Run.nil start

/-- **Nodes with their gaps filled cover everything between two places.** -/
theorem fill_run (h : Spread src lo hi nodes) (hhi : hi ≤ src.size) :
    Run src.Holds lo hi (fill src lo hi nodes) := by
  induction nodes generalizing lo with
  | nil => exact gap_run h hhi
  | cons node nodes ih =>
      obtain ⟨hstart, hnode, hrest⟩ := h
      have hle := hnode.le
      have hmax : max lo node.stop = node.stop := by omega
      have hin := hrest.le
      unfold fill
      rw [hmax]
      exact (gap_run hstart (by omega)).append (Run.cons hnode (ih hrest))

/-- Filling gaps leaves no node out. -/
theorem mem_fill (cursor stop : Nat) {n : Node} (hn : n ∈ nodes) : n ∈ fill src cursor stop nodes := by
  induction nodes generalizing cursor with
  | nil => exact absurd hn List.not_mem_nil
  | cons m nodes ih =>
      rcases List.mem_cons.mp hn with rfl | hn
      · exact List.mem_append_right _ List.mem_cons_self
      · exact List.mem_append_right _ (List.mem_cons_of_mem _ (ih _ hn))

/-- Filling drops no node. -/
theorem fill_ne_nil (hne : nodes ≠ []) : fill src lo hi nodes ≠ [] := by
  cases nodes with
  | nil => exact absurd rfl hne
  | cons node nodes => simp [fill]

/-- A branch over nodes and the gaps between them covers everything between two places. -/
theorem filled_run (kind : MarkupKind) (h : Spread src lo hi nodes) (hhi : hi ≤ src.size)
    (hsome : lo < hi ∨ nodes ≠ []) : Run src.Holds lo hi [filled src kind lo hi nodes] := by
  have hrun := fill_run h hhi
  refine markup_run kind hrun ?_
  rcases hsome with hlt | hne
  · exact hrun.ne_nil hlt
  · exact fill_ne_nil hne

/-- A branch that ends with the last of its nodes. -/
theorem enclosing_run (kind : MarkupKind) (h : Spread src lo hi nodes) (hhi : hi ≤ src.size)
    (hne : nodes ≠ []) :
    Run src.Holds lo (lastEnd lo nodes) [enclosing src kind lo nodes] ∧ lastEnd lo nodes ≤ hi := by
  obtain ⟨hnodes, hle⟩ := h.narrow
  exact ⟨filled_run kind hnodes (Nat.le_trans hle hhi) (.inr hne), hle⟩

/-! ## What block rules rely on -/

theorem value_bind {α β : Type} (x : Limited α) (f : α → Limited β) :
    (x >>= f).value = (f x.value).value :=
  rfl

/-- What is relied on while blocks are read: inline content is covered by its nodes, and the nodes of the
blocks inside a block lie between the places that its lines lie between. -/
structure BlockEnv.Sound (env : BlockEnv) : Prop where
  inline : ∀ {lo hi : Nat} {segments : List Span} (mode : Mode), Region lo hi segments →
    hi ≤ env.source.size → Run env.source.Holds lo hi (env.inline segments mode).value
  nested : ∀ {lo hi : Nat} {lines : List Span}, Lines lo hi lines → hi ≤ env.source.size →
    Spread env.source lo hi (env.nested lines).value

end ComponentMarkup.Markup
