import ComponentMarkup.Proofs.Markup.Pairing

/-!
# Bodies that no brace closes

When a region has been read, some commands may still wait for the brace that closes their body.  If nothing but white
space follows, the end of the text closes them.  If more follows, they were no commands: each is turned back into text,
its head and the brace that opened its body.  Texts that touch are joined, so such a delimiter ends up inside a text
among the nodes of the region, side by side with them.

* `InText` — some text among nodes covers a stretch;
* `degradeCommand_mem`, `closeCommand_mem`, `closeCommands_mem` — turning commands back into text takes nothing apart
  but braced bodies;
* `InText.joined` — joining texts covers what each of them covered;
* `inlineNodes_unclosed` — where more follows a region, all delimiters that still wait at its end are text.
-/

namespace ComponentMarkup.Markup

open ComponentMarkup.Text ComponentMarkup.Tree

variable {src : Source} {env : Env} {s : State} {node n : Node} {nodes others : List Node} {parts : List Part}
  {stretch : Span} {a b : Nat}

/-! ## Turning commands back into text -/

/-- The nodes of parts are those that parts stand for. -/
theorem mem_nodesOf : n ∈ nodesOf src parts ↔ ∃ part ∈ parts, part.node src = n := by
  simp only [nodesOf, List.mem_map, List.mem_reverse]

/-- Only braced bodies are taken apart when a command is turned back into text. -/
theorem degradeCommand_mem (hplain : n.isMarkup .contentBlock = false) (h : n ∈ nodesOf src s.parts) :
    n ∈ nodesOf src (s.degradeCommand src).parts := by
  unfold State.degradeCommand
  split
  · exact h
  rename_i above body below hbody
  split
  · exact h
  rename_i between command rest hcommand
  obtain ⟨part, hpart, rfl⟩ := mem_nodesOf.mp h
  rw [(findWaiting?_spec hbody).1, (findWaiting?_spec hcommand).1] at hpart
  rw [mem_nodesOf]
  simp only [State.completeCommand, List.mem_append, List.mem_cons, List.mem_flatMap] at hpart ⊢
  rcases hpart with habove | rfl | hbetween | rfl | hrest
  · exact ⟨part, .inl (.inl habove), rfl⟩
  · exact ⟨_, .inl (.inr (.inl rfl)), rfl⟩
  · refine ⟨part, .inl (.inr (.inr ⟨part, hbetween, ?_⟩)), rfl⟩
    cases part with
    | done node =>
        have hother : node.isMarkup .contentBlock = false := hplain
        simp only [hother, Bool.false_eq_true, if_false, List.mem_singleton]
    | waiting d => exact List.mem_singleton_self _
  · exact ⟨_, .inr (.inl rfl), rfl⟩
  · exact ⟨part, .inr (.inr hrest), rfl⟩

/-- A pass of closing commands before the end of a text turns one back into text. -/
theorem closeCommand_mem (hmore : env.atEnd = false) (hplain : n.isMarkup .contentBlock = false)
    (h : n ∈ nodesOf env.source s.parts) : n ∈ nodesOf env.source (closeCommand env s).parts := by
  unfold closeCommand
  split
  · exact h
  · rw [if_neg (Bool.eq_false_iff.mp hmore)]
    exact degradeCommand_mem hplain h

/-- However many passes are made, all nodes but braced bodies stay. -/
theorem closeCommands_mem (hmore : env.atEnd = false) (hplain : n.isMarkup .contentBlock = false) (fuel : Nat)
    (h : n ∈ nodesOf env.source s.parts) : n ∈ nodesOf env.source (closeCommands env fuel s).parts := by
  induction fuel generalizing s with
  | zero => exact h
  | succ fuel ih =>
      rw [closeCommands_succ]
      exact ih (closeCommand_mem hmore hplain h)

/-! ## Joined texts -/

/-- Some text among nodes covers a stretch. -/
def InText (nodes : List Node) (stretch : Span) : Prop :=
  ∃ n ∈ nodes, n.kind = .markup .text ∧ n.start ≤ stretch.start ∧ stretch.stop ≤ n.stop

theorem InText.subset (h : InText nodes stretch) (hsub : nodes ⊆ others) : InText others stretch := by
  obtain ⟨n, hn, hcovers⟩ := h
  exact ⟨n, hsub hn, hcovers⟩

/-- A text covers its own stretch. -/
theorem InText.leafOf (h : Tree.leafOf src .text stretch.start stretch.stop ∈ nodes) : InText nodes stretch :=
  ⟨_, h, rfl, Nat.le_refl _, Nat.le_refl _⟩

/-- A text joined with the text behind it covers what either of them covered. -/
theorem InText.joinText (hrun : Run src.Holds a b (node :: nodes)) (h : InText (node :: nodes) stretch) :
    InText (joinText node nodes) stretch := by
  unfold Markup.joinText
  split
  · rename_i t s t' s' rest
    split
    · rename_i htouch
      obtain ⟨-, hfirst, hothers⟩ := hrun.of_cons
      obtain ⟨-, hsecond, -⟩ := hothers.of_cons
      have hstop : s.stop ≤ s'.stop := htouch ▸ Node.Fits.le hsecond
      have hstart : s.start ≤ s'.start := htouch ▸ Node.Fits.le hfirst
      have hjoined : ∀ inner : Span, s.start ≤ inner.start → inner.stop ≤ s'.stop → inner.start ≤ stretch.start →
          stretch.stop ≤ inner.stop → InText (.leaf (.markup .text) (t ++ t') ⟨s.start, s'.stop⟩ :: rest) stretch :=
        fun inner hstart hstop hfrom hto =>
          ⟨_, List.mem_cons_self, rfl, Nat.le_trans hstart hfrom, Nat.le_trans hto hstop⟩
      obtain ⟨n, hn, hkind, hfrom, hto⟩ := h
      rcases List.mem_cons.mp hn with rfl | hn
      · exact hjoined s (Nat.le_refl _) hstop hfrom hto
      rcases List.mem_cons.mp hn with rfl | hn
      · exact hjoined s' hstart (Nat.le_refl _) hfrom hto
      · exact ⟨n, List.mem_cons_of_mem _ hn, hkind, hfrom, hto⟩
    · exact h
  · exact h

/-- Joining all texts that touch covers what each of them covered. -/
theorem InText.joined (hrun : Run src.Holds a b nodes) (h : InText nodes stretch) :
    InText (nodes.foldr Markup.joinText []) stretch := by
  induction nodes generalizing a with
  | nil => exact h
  | cons node nodes ih =>
      obtain ⟨rfl, hnode, hothers⟩ := hrun.of_cons
      refine InText.joinText (Run.cons hnode (joinAll_run hothers)) ?_
      obtain ⟨n, hn, hcovers⟩ := h
      rcases List.mem_cons.mp hn with rfl | hn
      · exact ⟨n, List.mem_cons_self, hcovers⟩
      · exact (ih hothers ⟨n, hn, hcovers⟩).subset (List.subset_cons_self _ _)

/-! ## Whole regions -/

/-- A region that has been read is covered by its parts. -/
theorem regionEnd_stack {lo hi : Nat} {segments : List Span} (levels : Nat) (mode : Mode)
    (hregion : Region lo hi segments) (hhi : hi ≤ src.size) :
    Stack src lo hi (regionEnd src levels segments mode).parts := by
  have hstop : (regionEnv src levels segments mode).stop = hi := hregion.last_stop
  have he : (regionEnv src levels segments mode).Sound := ⟨hstop ▸ hhi, nestedRegions_run src levels⟩
  have hstart : (State.start segments).Sound (regionEnv src levels segments mode) lo := .start (hstop ▸ hregion)
  exact hstop ▸ readRegion_sound (regionSteps segments) he hstart (Nat.le_of_lt (stepsLeft_start rfl))

/-- **Where more than white space follows a region, no command is left open in it.**  The delimiters that still wait when
all of the region has been read, heads of commands and opening braces of bodies among them, are inside of texts. -/
theorem inlineNodes_unclosed {lo hi : Nat} {segments : List Span} (levels : Nat) (mode : Mode)
    (hregion : Region lo hi segments) (hhi : hi ≤ src.size) (hmore : isAllWhite (src.after hi) = false) (d : Delimiter)
    (hd : .waiting d ∈ (regionEnd src levels segments mode).parts) :
    InText (inlineNodes src levels segments mode).value d.span := by
  have hnotEnd : (regionEnv src levels segments mode).atEnd = false := by
    show isAllWhite (src.after (regionEnv src levels segments mode).stop) = false
    rw [show (regionEnv src levels segments mode).stop = hi from hregion.last_stop]
    exact hmore
  have hread : Stack (regionEnv src levels segments mode).source lo hi (regionEnd src levels segments mode).parts :=
    regionEnd_stack levels mode hregion hhi
  have htext : leafOf src .text d.span.start d.span.stop ∈ nodesOf src (regionEnd src levels segments mode).parts :=
    mem_nodesOf.mpr ⟨_, hd, rfl⟩
  rw [inlineNodes_eq]
  exact InText.joined (closeCommands_stack _ hread).run (InText.leafOf (closeCommands_mem hnotEnd rfl _ htext))

end ComponentMarkup.Markup
