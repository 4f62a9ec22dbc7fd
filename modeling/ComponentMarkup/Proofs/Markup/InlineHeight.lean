import ComponentMarkup.Proofs.Markup.Moves

/-!
# The height of inline content

A node that is wrapped around others takes the place of the delimiter that waited for it.  So what a tree gains in
height the stack loses in delimiters, and a finished node with the delimiters that wait below it never gets higher
than the stack may become.  The stack cannot become high: marks wait only while its level is small, and each waiting
command has frames of its own, of which there are few.

* `Stacked` — finished nodes and the delimiters below them keep within a limit;
* `Move.bounded` — a move keeps the limit, and the number of delimiters that may wait;
* `closeCommands_stacked` — so does closing the commands left open;
* `inlineNodes_upTo` — inline content is only so high, however long it is.
-/

namespace ComponentMarkup.Markup

open ComponentMarkup.Text ComponentMarkup.Tree

variable {src : Source} {low limit : Nat} {parts above below : List Part}

/-! ## Stacks -/

/-- How many delimiters are waiting. -/
def waitingCount : List Part → Nat
  | [] => 0
  | .done _ :: parts => waitingCount parts
  | .waiting _ :: parts => waitingCount parts + 1

/-- Each finished node, and each delimiter's own nodes, keep within a limit together with the delimiters that wait
below.  The level of a delimiter is at least the number of those. -/
def Stacked (limit : Nat) : List Part → Prop
  | [] => True
  | .done node :: parts => node.markupHeight + waitingCount parts ≤ limit ∧ Stacked limit parts
  | .waiting d :: parts => waitingCount parts ≤ d.level ∧ waitingCount parts < limit ∧
      (∀ n ∈ d.opener.ownNodes, n.markupHeight + waitingCount parts < limit) ∧ Stacked limit parts

theorem waitingCount_append (above below : List Part) :
    waitingCount (above ++ below) = waitingCount above + waitingCount below := by
  induction above with
  | nil => exact (Nat.zero_add _).symm
  | cons part above ih =>
      cases part with
      | done node => exact ih
      | waiting d =>
          show waitingCount (above ++ below) + 1 = waitingCount above + 1 + waitingCount below
          rw [ih, Nat.add_right_comm]

theorem commandParts_le_waitingCount (parts : List Part) : (commandParts parts).length ≤ waitingCount parts := by
  induction parts with
  | nil => exact Nat.le_refl 0
  | cons part parts ih =>
      cases part with
      | done node => exact ih
      | waiting d =>
          cases hcommand : Part.command? (.waiting d) with
          | none =>
              rw [commandParts, List.filterMap_cons_none hcommand]
              exact Nat.le_succ_of_le ih
          | some tag =>
              rw [commandParts, List.filterMap_cons_some hcommand]
              exact Nat.succ_le_succ ih

namespace Stacked

/-- No more delimiters wait than the level says. -/
theorem count_le (h : Stacked limit parts) : waitingCount parts ≤ nextLevel parts := by
  induction parts with
  | nil => exact Nat.le_refl 0
  | cons part parts ih =>
      cases part with
      | done node => exact ih h.2
      | waiting d => exact Nat.succ_le_succ h.1

theorem of_append (h : Stacked limit (above ++ below)) : Stacked limit below := by
  induction above with
  | nil => exact h
  | cons part above ih =>
      cases part with
      | done node => exact ih h.2
      | waiting d => exact ih h.2.2.2

/-- The finished nodes of the upper part of a stack. -/
theorem done_above (h : Stacked limit (above ++ below)) {node : Node} (hnode : .done node ∈ above) :
    node.markupHeight + waitingCount below ≤ limit := by
  induction above with
  | nil => exact absurd hnode List.not_mem_nil
  | cons part above ih =>
      rcases List.mem_cons.mp hnode with rfl | hmem
      · have hfirst : node.markupHeight + waitingCount (above ++ below) ≤ limit := h.1
        rw [waitingCount_append] at hfirst
        omega
      · cases part with
        | done other => exact ih h.2 hmem
        | waiting d => exact ih h.2.2.2 hmem

/-- All finished nodes are within the limit. -/
theorem doneUpTo (h : Stacked limit parts) : DoneUpTo limit parts := by
  intro node hnode
  have hwhole : Stacked limit (parts ++ []) := by rwa [List.append_nil]
  exact hwhole.done_above hnode

/-- **What is wrapped takes the place of its delimiter**, and the stack keeps the limit. -/
theorem wrap {accept blocks : Opener → Bool} {d : Delimiter} {node : Node} (h : Stacked limit parts)
    (hfound : findWaiting? accept blocks parts = some (above, d, below)) (hwraps : Wraps above d.opener node) :
    Stacked limit (.done node :: below) := by
  obtain ⟨rfl, -⟩ := findWaiting?_spec hfound
  obtain ⟨-, hlt, hown, hbelow⟩ := h.of_append
  refine ⟨?_, hbelow⟩
  -- the node is one higher than what it wraps, and one delimiter fewer waits below it
  have hheight := hwraps (limit - (waitingCount below + 1)) ?_ ?_
  · omega
  · intro inner hinner
    have hdone : inner.markupHeight + (waitingCount below + 1) ≤ limit := h.done_above hinner
    omega
  · intro n hn
    have hnode := hown n hn
    omega

/-- Finished nodes may be put on a stack that are within the limit there. -/
theorem pushAll {nodes : List Node} (h : Stacked limit parts)
    (hnodes : ∀ n ∈ nodes, n.markupHeight + waitingCount parts ≤ limit) :
    Stacked limit (nodes.map .done ++ parts) ∧ waitingCount (nodes.map .done ++ parts) = waitingCount parts := by
  induction nodes with
  | nil => exact ⟨h, rfl⟩
  | cons n nodes ih =>
      obtain ⟨hstacked, hcount⟩ := ih fun m hm => hnodes m (List.mem_cons_of_mem n hm)
      exact ⟨⟨hcount ▸ hnodes n List.mem_cons_self, hstacked⟩, hcount⟩

/-- The lower part of a stack may be replaced by one with no more delimiters, if in the upper part finished nodes are
replaced by nodes that are no higher. -/
theorem flatMap (change : Part → List Part) {below' : List Part}
    (hdone : ∀ node, ∃ nodes, change (.done node) = nodes.map .done ∧ UpTo node.markupHeight nodes)
    (hwaiting : ∀ d, change (.waiting d) = [.waiting d]) (h : Stacked limit (above ++ below))
    (h' : Stacked limit below') (hcount : waitingCount below' ≤ waitingCount below) :
    Stacked limit (above.flatMap change ++ below') ∧
      waitingCount (above.flatMap change ++ below') ≤ waitingCount (above ++ below) := by
  induction above with
  | nil => exact ⟨h', hcount⟩
  | cons part above ih =>
      rw [List.flatMap_cons, List.append_assoc]
      cases part with
      | waiting d =>
          obtain ⟨hlevel, hless, hown, hrest⟩ := h
          obtain ⟨hnext, hle⟩ := ih hrest
          rw [hwaiting]
          refine ⟨⟨Nat.le_trans hle hlevel, Nat.lt_of_le_of_lt hle hless, fun n hn => ?_, hnext⟩, Nat.succ_le_succ hle⟩
          exact Nat.lt_of_le_of_lt (Nat.add_le_add_left hle _) (hown n hn)
      | done node =>
          obtain ⟨hnode, hrest⟩ := h
          obtain ⟨hnext, hle⟩ := ih hrest
          obtain ⟨nodes, hnodes, hflat⟩ := hdone node
          obtain ⟨hpushed, hsame⟩ := hnext.pushAll fun n hn => Nat.le_trans (Nat.add_le_add (hflat n hn) hle) hnode
          rw [hnodes]
          exact ⟨hpushed, Nat.le_trans (Nat.le_of_eq hsame) hle⟩

theorem replace {below' : List Part} (h : Stacked limit (above ++ below)) (h' : Stacked limit below')
    (hcount : waitingCount below' ≤ waitingCount below) : Stacked limit (above ++ below') := by
  have hsame := h.flatMap (fun part => [part]) (fun node => ⟨[node], rfl, .single (Nat.le_refl _)⟩)
    (fun d => rfl) h' hcount
  rw [List.flatMap_singleton'] at hsame
  exact hsame.1

end Stacked

/-! ## What a move keeps -/

/-- A stack within the limit, with the marks and the parts of commands that may wait. -/
structure Bounded (low : Nat) (parts : List Part) : Prop where
  stacked : Stacked (4 * maxDepth + 1 + low) parts
  marks : waitingCount parts ≤ 2 * maxDepth + (commandParts parts).length
  commands : (commandParts parts).length ≤ 2 * maxDepth + 1

namespace Bounded

variable {d : Delimiter} {node : Node}

theorem push (h : Bounded low parts) (hnode : node.markupHeight ≤ low) : Bounded low (.done node :: parts) := by
  refine ⟨⟨?_, h.stacked⟩, h.marks, h.commands⟩
  have hmarks := h.marks
  have hcommands := h.commands
  omega

/-- What is wrapped leaves no more marks and no more parts of commands. -/
theorem wrap {accept blocks : Opener → Bool} (h : Bounded low parts)
    (hfound : findWaiting? accept blocks parts = some (above, d, below)) (hwraps : Wraps above d.opener node) :
    Bounded low (.done node :: below) := by
  have hstacked := h.stacked.wrap hfound hwraps
  obtain ⟨rfl, -⟩ := findWaiting?_spec hfound
  have hmarks := h.marks
  have hcommands := h.commands
  have hcount : waitingCount (.waiting d :: below) = waitingCount below + 1 := rfl
  have habove := commandParts_le_waitingCount above
  have hlength : (commandParts (.waiting d :: below)).length ≤ (commandParts below).length + 1 ∧
      (commandParts below).length ≤ (commandParts (.waiting d :: below)).length := by
    cases hcommand : Part.command? (.waiting d) with
    | none =>
        rw [commandParts, List.filterMap_cons_none hcommand]
        exact ⟨Nat.le_succ _, Nat.le_refl _⟩
    | some tag =>
        rw [commandParts, List.filterMap_cons_some hcommand]
        exact ⟨Nat.le_refl _, Nat.le_succ _⟩
  rw [waitingCount_append, hcount, commandParts_append, List.length_append] at hmarks
  rw [commandParts_append, List.length_append] at hcommands
  refine ⟨hstacked, ?_, ?_⟩
  · show waitingCount below ≤ 2 * maxDepth + (commandParts below).length
    omega
  · show (commandParts below).length ≤ 2 * maxDepth + 1
    omega

/-- A mark waits only while the level, and so the number of delimiters, is small. -/
theorem mark (h : Bounded low parts) (plain : d.opener.isCommand = false ∧ d.opener.isBody = false)
    (level : d.level = nextLevel parts) (room : d.level < 2 * maxDepth) : Bounded low (.waiting d :: parts) := by
  have hcount := h.stacked.count_le
  have hmarks := h.marks
  have hnone : d.opener.ownNodes = [] := by
    cases hopener : d.opener with
    | command kind head => exact absurd (hopener ▸ plain.1) (by simp [Opener.isCommand])
    | _ => rfl
  have hsame : commandParts (.waiting d :: parts) = commandParts parts := commandParts_mark plain.1 plain.2 parts
  refine ⟨⟨by omega, by omega, fun n hn => ?_, h.stacked⟩, ?_, hsame ▸ h.commands⟩
  · rw [hnone] at hn
    exact absurd hn List.not_mem_nil
  · rw [hsame]
    show waitingCount parts + 1 ≤ _
    omega

/-- A command waits, and a body of it, only while there are few. -/
theorem command {head : List Node} {kind : MarkupKind} {span brace : Span} (h : Bounded low parts)
    (flat : UpTo low head) (room : (commandParts parts).length < 2 * maxDepth) :
    Bounded low (.waiting ⟨.body, brace, nextLevel parts + 1⟩ ::
      .waiting ⟨.command kind head, span, nextLevel parts⟩ :: parts) := by
  have hcount := h.stacked.count_le
  have hmarks := h.marks
  have hstacked : Stacked (4 * maxDepth + 1 + low) (.waiting ⟨.command kind head, span, nextLevel parts⟩ :: parts) := by
    refine ⟨hcount, by omega, fun n hn => ?_, h.stacked⟩
    have hlow := flat n hn
    omega
  refine ⟨⟨Nat.succ_le_succ hcount, ?_, fun n hn => absurd hn List.not_mem_nil, hstacked⟩, ?_, ?_⟩
  · show waitingCount parts + 1 < _
    omega
  · show waitingCount parts + 2 ≤ 2 * maxDepth + ((commandParts parts).length + 2)
    omega
  · show (commandParts parts).length + 2 ≤ 2 * maxDepth + 1
    omega

/-- Another body takes the place of the one before. -/
theorem another {brace : Span} (h : Bounded low parts) (hfound : lastBody? parts = some (above, d, below))
    (hwraps : Wraps above d.opener node) :
    Bounded low (.waiting ⟨.body, brace, nextLevel below⟩ :: .done node :: below) := by
  obtain ⟨hstacked, -, -⟩ := h.wrap hfound hwraps
  have hcount := hstacked.count_le
  have hmarks := h.marks
  have hcommands := h.commands
  obtain ⟨rfl, hbody⟩ := findWaiting?_spec hfound
  have hbelow : waitingCount (.waiting d :: below) = waitingCount below + 1 := rfl
  have hparts : commandParts (.waiting d :: below) = .body :: commandParts below :=
    List.filterMap_cons_some ((isBody_iff d).mp hbody)
  have habove := commandParts_le_waitingCount above
  rw [waitingCount_append, hbelow, commandParts_append, hparts, List.length_append, List.length_cons] at hmarks
  rw [commandParts_append, hparts, List.length_append, List.length_cons] at hcommands
  refine ⟨⟨hcount, ?_, fun n hn => absurd hn List.not_mem_nil, hstacked⟩, ?_, ?_⟩
  · show waitingCount below < _
    omega
  · show waitingCount below + 1 ≤ 2 * maxDepth + ((commandParts below).length + 1)
    omega
  · show (commandParts below).length + 1 ≤ 2 * maxDepth + 1
    omega

end Bounded

/-- **A move keeps the stack bounded.** -/
theorem Move.bounded {parts' : List Part} (h : Move low parts parts') (hb : Bounded low parts) :
    Bounded low parts' := by
  cases h with
  | push flat => exact hb.push flat
  | mark plain level room => exact hb.mark plain level room
  | command flat room => exact hb.command flat room
  | wrap found flat => exact hb.wrap found flat
  | another found flat => exact hb.another found flat

/-- Moves keep the stack bounded. -/
theorem Moves.bounded {parts' : List Part} (h : Moves low parts parts') (hb : Bounded low parts) :
    Bounded low parts' := by
  induction h with
  | refl => exact hb
  | tail _ hmove ih => exact hmove.bounded ih

/-! ## Regions -/

variable {env : Env} {s : State} {bound : Nat}

/-- **However far a region is read, the stack is bounded.** -/
theorem readRegion_bounded (he : NestedUpTo bound env.nested) (fuel : Nat) (hs : s.Paired)
    (hb : Bounded (bound + 2) s.parts) : Bounded (bound + 2) (readRegion env fuel s).parts := by
  induction fuel generalizing s with
  | zero => exact hb
  | succ fuel ih =>
      unfold readRegion
      split
      · exact hb
      · rename_i segment later _
        exact ih (step_paired hs segment later) ((step_moves he hs segment later).bounded hb)

/-- The children of a body are no higher without their braces. -/
theorem unbrace_upTo {n : Node} (h : n.markupHeight ≤ bound) : UpTo bound (unbrace n) := by
  intro m hm
  obtain ⟨child, hchild, rfl⟩ := List.mem_map.mp hm
  have hle := n.upTo_children child hchild
  split
  · rename_i hbrace
    cases child with
    | leaf => exact Nat.zero_le _
    | fault => exact Nat.zero_le _
    | inner kind span host count faulty children =>
        refine Nat.le_trans ?_ (Nat.le_trans hle h)
        have hrank : kind.markupRank = 1 := by
          cases kind with
          | markup kind => rfl
          | script kind => exact absurd hbrace (by simp [Node.isMarkup, Node.kind])
          | fault => exact absurd hbrace (by simp [Node.isMarkup, Node.kind])
        rw [Node.withKind, Node.markupHeight, Node.markupHeight, hrank]
        exact Nat.le_refl _
  · exact Nat.le_trans hle h

/-- **A command that becomes text again** leaves its parts with fewer delimiters below them. -/
theorem degradeCommand_stacked (h : Stacked limit s.parts) : Stacked limit (s.degradeCommand src).parts := by
  unfold State.degradeCommand
  split
  · exact h
  rename_i above body below hbody
  split
  · exact h
  rename_i between command rest hcommand
  obtain ⟨hparts, -⟩ := findWaiting?_spec hbody
  obtain ⟨rfl, -⟩ := findWaiting?_spec hcommand
  rw [hparts] at h
  obtain ⟨-, -, -, hbelow⟩ := h.of_append
  obtain ⟨-, hlt, -, hrest⟩ := hbelow.of_append
  have htext : ∀ (d : Delimiter) {parts : List Part}, Stacked limit parts → waitingCount parts ≤ limit →
      Stacked limit (.done (leafOf src .text d.span.start d.span.stop) :: parts) :=
    fun d parts hparts hle => ⟨by rwa [leafOf, Node.markupHeight, Nat.zero_add], hparts⟩
  have hlower := htext command hrest (Nat.le_of_lt hlt)
  have hchanged : ∀ change : Part → List Part,
      (∀ node, ∃ nodes, change (.done node) = nodes.map .done ∧ UpTo node.markupHeight nodes) →
      (∀ d, change (.waiting d) = [.waiting d]) →
      Stacked limit (above ++ .done (leafOf src .text body.span.start body.span.stop) :: between.flatMap change ++
        .done (leafOf src .text command.span.start command.span.stop) :: rest) := by
    intro change hdone hwaiting
    obtain ⟨hmiddle, hcount⟩ := hbelow.flatMap change hdone hwaiting hlower (Nat.le_succ _)
    obtain ⟨-, hwithin, -⟩ := h.of_append
    rw [List.append_assoc]
    exact h.replace (htext body hmiddle (Nat.le_trans hcount (Nat.le_of_lt hwithin))) (Nat.le_succ_of_le hcount)
  refine hchanged _ (fun node => ?_) fun d => rfl
  dsimp only
  split
  · -- a body that was closed falls apart into its children
    exact ⟨_, rfl, fun n hn => unbrace_upTo (Nat.le_refl _) n (List.mem_reverse.mp hn)⟩
  · exact ⟨[node], rfl, .single (Nat.le_refl _)⟩

theorem finishCommand_stacked (h : Stacked limit s.parts) : Stacked limit (s.finishCommand src).parts := by
  unfold State.finishCommand
  split
  · rename_i above kind head span level below hfound
    exact h.wrap hfound fun bound habove hhead => UpTo.markup (hhead.append (settle_upTo habove)) kind
  · exact h

/-- **Closing the commands left open** keeps the limit. -/
theorem closeCommands_stacked (fuel : Nat) (h : Stacked limit s.parts) :
    Stacked limit (closeCommands env fuel s).parts := by
  induction fuel generalizing s with
  | zero => exact h
  | succ fuel ih =>
      unfold closeCommands
      split
      · exact h
      rename_i above d below hfound
      split
      · refine ih (finishCommand_stacked (h.wrap hfound fun bound habove _ => ?_))
        exact UpTo.markup ((settle_upTo habove).cons (leafOf_flat _ _ _ _)) .contentBlock
      · exact ih (degradeCommand_stacked h)

/-- How much higher than the regions inside it a region may be. -/
def regionHeight : Nat := 4 * maxDepth + 3

theorem readInline_upTo {nested : Span → Mode → Limited (List Node)} (hnested : NestedUpTo bound nested)
    (segments : List Span) (mode : Mode) : UpTo (regionHeight + bound) (readInline src nested segments mode).value := by
  have hstart : Bounded (bound + 2) (State.start segments).parts := ⟨trivial, Nat.zero_le _, Nat.zero_le _⟩
  have hlimit : regionHeight + bound = 4 * maxDepth + 1 + (bound + 2) := by
    unfold regionHeight
    omega
  rw [hlimit]
  unfold readInline
  dsimp only
  exact settle_upTo (closeCommands_stacked _ (readRegion_bounded hnested _ (.start segments) hstart).stacked).doneUpTo

/-- **Inline content is only so high**, however long it is. -/
theorem inlineNodes_upTo (src : Source) (levels : Nat) (segments : List Span) (mode : Mode) :
    UpTo ((levels + 1) * regionHeight) (inlineNodes src levels segments mode).value := by
  induction levels generalizing segments mode with
  | zero =>
      have hnested : NestedUpTo 0 fun s _ => ⟨[leafOf src .text s.start s.stop], some s.start⟩ :=
        fun _ _ => .single (leafOf_flat _ _ _ _)
      rw [Nat.zero_add, Nat.one_mul]
      exact readInline_upTo hnested segments mode
  | succ levels ih =>
      rw [Nat.succ_mul, Nat.add_comm]
      exact readInline_upTo (fun inner mode => ih [inner] mode) segments mode

end ComponentMarkup.Markup
