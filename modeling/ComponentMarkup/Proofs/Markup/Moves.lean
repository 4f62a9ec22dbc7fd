import ComponentMarkup.Proofs.Markup.Pairing
import ComponentMarkup.Proofs.Tree.MarkupHeight
import Mathlib.Logic.Relation

/-!
# Moves on the stack of parts

However many rules there are for inline content, they do one of a few things to the stack of parts: they add a node
that is finished, let a mark or a command wait for its end, or wrap what stands above a delimiter.  What a step of
reading a region can do to the parts is said here once, with what it takes for granted: marks wait only while there
is room for them, commands only while the frames are not too deep, and a node is at most one higher than what it
wraps.

* `Move` — what happens to the parts;
* `fullRule_moves`, `templateRule_moves` — every rule makes such moves;
* `step_moves` — so does every step of reading a region.
-/

namespace ComponentMarkup.Markup

open ComponentMarkup.Text ComponentMarkup.Tree

variable {src : Source} {kind : MarkupKind} {nodes : List Node} {bound low : Nat}

theorem leafOf_flat (src : Source) (kind : MarkupKind) (a b : Nat) : (leafOf src kind a b).markupHeight ≤ bound :=
  Nat.zero_le _

theorem bracketed_flat (kind left inside right : MarkupKind) (s : Span) :
    (Head.bracketed src kind left inside right s).markupHeight ≤ 1 :=
  UpTo.markup (.append (.cons (leafOf_flat _ _ _ _) (.optional (.single (leafOf_flat _ _ _ _))))
    (.single (leafOf_flat _ _ _ _))) kind

theorem Head.nodes_upTo (head : Head) : UpTo 1 (head.nodes src) := by
  refine .append (.cons (leafOf_flat _ _ _ _) ?_) ?_
  · split
    · exact .single (leafOf_flat _ _ _ _)
    · exact .single (bracketed_flat _ _ _ _ _)
    · exact .nil
  · split
    · exact .single (bracketed_flat _ _ _ _ _)
    · exact .nil

theorem verbatimNode_flat (opening closing : Nat) : (verbatimNode src opening closing).markupHeight ≤ 1 :=
  UpTo.markup (.append (.cons (leafOf_flat _ _ _ _) (.optional (.single (leafOf_flat _ _ _ _))))
    (.single (leafOf_flat _ _ _ _))) .verbatim

/-! ## Parts -/

/-- The level of the next delimiter that waits. -/
def nextLevel : List Part → Nat
  | [] => 0
  | .done _ :: parts => nextLevel parts
  | .waiting d :: _ => d.level + 1

theorem State.level_eq (s : State) : s.level = nextLevel s.parts := by
  obtain ⟨segments, place, nesting, parts, overflow⟩ := s
  induction parts with
  | nil => rfl
  | cons part parts ih =>
      cases part with
      | done node => exact ih
      | waiting d => rfl

/-- Parts whose finished nodes are not higher than a bound. -/
def DoneUpTo (bound : Nat) (parts : List Part) : Prop :=
  ∀ node, .done node ∈ parts → node.markupHeight ≤ bound

/-- The nodes that a delimiter brings to the node that it opens. -/
def Opener.ownNodes : Opener → List Node
  | .command _ head => head
  | .emphasis _ _ | .strike | .link _ | .body => []

/-- A node made of the parts above a delimiter is at most one higher than they and the delimiter's own nodes. -/
def Wraps (above : List Part) (opener : Opener) (node : Node) : Prop :=
  ∀ bound, DoneUpTo bound above → UpTo bound opener.ownNodes → node.markupHeight ≤ bound + 1

variable {parts above below : List Part}

/-- Text that is joined is no higher. -/
theorem joinText_upTo {n : Node} (hn : n.markupHeight ≤ bound) (h : UpTo bound nodes) :
    UpTo bound (joinText n nodes) := by
  unfold joinText
  split
  · split
    · exact .cons (Nat.zero_le _) fun m hm => h m (List.mem_cons_of_mem _ hm)
    · exact h.cons hn
  · exact h.cons hn

/-- What parts become is not higher than their nodes. -/
theorem settle_upTo (h : DoneUpTo bound parts) : UpTo bound (settle src parts) := by
  have hnodes : UpTo bound (parts.reverse.map (Part.node src)) := by
    intro n hn
    obtain ⟨part, hpart, rfl⟩ := List.mem_map.mp hn
    cases part with
    | done node => exact h node (List.mem_reverse.mp hpart)
    | waiting d => exact leafOf_flat _ _ _ _
  unfold settle
  generalize parts.reverse.map (Part.node src) = ns at hnodes
  induction ns with
  | nil => exact .nil
  | cons n ns ih =>
      exact joinText_upTo (hnodes n List.mem_cons_self) (ih fun m hm => hnodes m (List.mem_cons_of_mem _ hm))

/-- Two delimiters around what parts become. -/
theorem Wraps.between (kind left right : MarkupKind) (opener : Opener) (above : List Part) (a b c d : Nat) :
    Wraps above opener (.markup kind (leafOf src left a b :: settle src above ++ [leafOf src right c d])) :=
  fun _ habove _ => UpTo.markup (((settle_upTo habove).cons (leafOf_flat _ _ _ _)).append
    (.single (leafOf_flat _ _ _ _))) kind

/-! ## Moves -/

/-- What happens to the parts of a region when something is read.  Nodes that are read at once are no higher than
`low`. -/
inductive Move (low : Nat) (parts : List Part) : List Part → Prop
  /-- A node is added. -/
  | push {node : Node} (flat : node.markupHeight ≤ low) : Move low parts (.done node :: parts)
  /-- A mark, a link or an image waits for its end. -/
  | mark {d : Delimiter} (plain : d.opener.isCommand = false ∧ d.opener.isBody = false)
      (level : d.level = nextLevel parts) (room : d.level < 2 * maxDepth) : Move low parts (.waiting d :: parts)
  /-- A command waits for the end of its first body. -/
  | command {head : List Node} {kind : MarkupKind} {span brace : Span} (flat : UpTo low head)
      (room : (commandParts parts).length < 2 * maxDepth) :
      Move low parts (.waiting ⟨.body, brace, nextLevel parts + 1⟩ ::
        .waiting ⟨.command kind head, span, nextLevel parts⟩ :: parts)
  /-- The parts above a delimiter become a node. -/
  | wrap {accept blocks : Opener → Bool} {above below : List Part} {d : Delimiter} {node : Node}
      (found : findWaiting? accept blocks parts = some (above, d, below)) (flat : Wraps above d.opener node) :
      Move low parts (.done node :: below)
  /-- The parts above a body become a node, and the next body of the command waits for its end. -/
  | another {above below : List Part} {d : Delimiter} {node : Node} {brace : Span}
      (found : lastBody? parts = some (above, d, below)) (flat : Wraps above d.opener node) :
      Move low parts (.waiting ⟨.body, brace, nextLevel below⟩ :: .done node :: below)

/-- Several moves, one after the other. -/
abbrev Moves (low : Nat) : List Part → List Part → Prop :=
  Relation.ReflTransGen (Move low)

variable {env : Env} {s : State} {site : Site}

theorem Moves.push {node : Node} (h : node.markupHeight ≤ low) : Moves low parts (.done node :: parts) :=
  .single (.push h)

namespace State

theorem pushLeaf_moves (s : State) (kind : MarkupKind) (stop : Nat) :
    Moves low s.parts (s.pushLeaf src kind stop).parts :=
  .push (leafOf_flat _ _ _ _)

theorem openMark_moves (s : State) {opener : Opener} (plain : opener.isCommand = false ∧ opener.isBody = false)
    (stop : Nat) : Moves low s.parts (s.openMark src opener stop).parts := by
  unfold State.openMark
  split
  · rename_i hroom
    exact .single (.mark plain s.level_eq (of_decide_eq_true hroom))
  · exact .push (leafOf_flat _ _ _ _)

/-- The head and the bodies of a command become a node. -/
theorem finishCommand_moves (s : State) : Moves low s.parts (s.finishCommand src).parts := by
  unfold State.finishCommand
  split
  · rename_i above kind head span level below hfound
    refine .single (.wrap hfound fun bound habove hhead => ?_)
    exact UpTo.markup (hhead.append (settle_upTo habove)) kind
  · exact .refl

end State

/-! ## Rules -/

/-- A verdict that a few moves lead to. -/
def Verdict.Moves (low : Nat) (parts : List Part) : Verdict → Prop
  | .claimed s => Markup.Moves low parts s.parts
  | .declined => True
  | .tooDeep => True

theorem Verdict.Moves.ite {c : Prop} [Decidable c] {v w : Verdict} (hv : v.Moves low parts) (hw : w.Moves low parts) :
    (if c then v else w).Moves low parts := by
  split
  · exact hv
  · exact hw

/-- A way to read regions inside a region whose nodes are not higher than a bound. -/
def NestedUpTo (bound : Nat) (nested : Span → Mode → Limited (List Node)) : Prop :=
  ∀ inner mode, UpTo bound (nested inner mode).value

theorem escapeRule_moves : (escapeRule env s site).Moves low s.parts := by
  unfold escapeRule
  split
  · exact .ite (s.pushLeaf_moves _ _) trivial
  · trivial

/-- There are at least as many frames as waiting commands and bodies. -/
theorem State.Paired.length_le (h : s.Paired) : (commandParts s.parts).length ≤ s.nesting.depth := by
  have hlength : ∀ {tags forms}, Matched tags forms → tags.length = forms.length := by
    intro tags forms hmatched
    induction hmatched with
    | root => rfl
    | command pending outside ih => exact congrArg (· + 2) ih
  exact Nat.le_of_eq ((hlength h).trans (List.length_map Frame.form))

section Rules

variable (he : NestedUpTo bound env.nested)

include he in
theorem lineContent_upTo (limit start : Nat) : UpTo (bound + 1) (lineContent env s limit start).1.value := by
  have hspace : ∀ a b, UpTo (bound + 1) (if a < b then [leafOf env.source .space a b] else []) :=
    fun a b => .optional (.single (leafOf_flat _ _ _ _))
  unfold lineContent
  dsimp only
  split
  · exact (hspace _ _).append (.single (UpTo.markup (he _ _) _))
  · exact hspace _ _

include he in
theorem commandRule_moves (hs : s.Paired) (kind : MarkupKind) (width : Nat) :
    (commandRule env s site kind width).Moves (bound + 2) s.parts := by
  unfold commandRule
  dsimp only
  refine .ite trivial ?_
  split
  · trivial
  rename_i head _
  have hhead : UpTo 1 (head.nodes env.source) := head.nodes_upTo
  have hflat : UpTo (bound + 1) (head.nodes env.source) := hhead.weaken (Nat.le_add_left 1 bound)
  refine .ite trivial ?_
  split
  · trivial
  rename_i hdepth
  split
  · -- a verbatim body is closed at once
    refine .push (UpTo.markup (hflat.append (.single ?_)) kind)
    exact Nat.le_trans (verbatimNode_flat _ _) (Nat.le_add_left 1 bound)
  split
  · rename_i hbrace
    have hroom : ¬ 2 * maxDepth ≤ s.nesting.depth := by simpa [hbrace] using hdepth
    have hopen : (commandParts s.parts).length < 2 * maxDepth := by
      have hframes := hs.length_le
      omega
    have hlevel := s.level_eq
    have hmove : Move (bound + 2) s.parts (.waiting ⟨.body, ⟨head.stop, head.stop + 1⟩, nextLevel s.parts + 1⟩ ::
        .waiting ⟨.command kind (head.nodes env.source), ⟨s.place, head.stop⟩, nextLevel s.parts⟩ :: s.parts) :=
      .command (hflat.weaken (Nat.le_succ _)) hopen
    rw [← hlevel] at hmove
    exact .single hmove
  refine .ite trivial (.ite ?_ ?_)
  · exact .push (UpTo.markup (hflat.append ((lineContent_upTo he _ _).cons (leafOf_flat _ _ _ _))) kind)
  · exact .push (UpTo.markup hflat kind)

theorem referenceRule_moves : (referenceRule env s site).Moves (bound + 2) s.parts := by
  unfold referenceRule
  split
  · trivial
  · exact .ite trivial (.push (UpTo.markup ((Head.nodes_upTo _).weaken (Nat.le_add_left 1 bound)) _))

include he in
theorem mathRule_moves : (mathRule env s site).Moves (bound + 2) s.parts := by
  unfold mathRule
  split
  · refine .ite trivial ?_
    split
    · trivial
    refine .ite trivial (.push (UpTo.markup ?_ _))
    exact ((UpTo.single (leafOf_flat _ _ _ _)).cons (UpTo.markup (he _ _) _)).cons (leafOf_flat _ _ _ _)
  · trivial

theorem codeRule_moves : (codeRule env s site).Moves (bound + 2) s.parts := by
  unfold codeRule
  dsimp only
  split
  · exact s.pushLeaf_moves _ _
  · refine .push (UpTo.markup ?_ _)
    exact ((UpTo.optional (.single (leafOf_flat _ _ _ _))).cons (leafOf_flat _ _ _ _)).append
      (.single (leafOf_flat _ _ _ _))

/-- A mark that finds its partner wraps what is between them. -/
theorem resolve?_moves {accept : Opener → Bool} {stop : Nat} {s' : State}
    (h : resolve? env s accept kind stop = some s') : Moves low s.parts s'.parts := by
  obtain ⟨⟨above, d, below⟩, hfound, rfl⟩ := Option.map_eq_some_iff.mp h
  exact .single (.wrap hfound (.between _ _ _ _ _ _ _ _ _))

theorem emphasisRule_moves (mark : Char) : (emphasisRule env s site mark).Moves low s.parts := by
  unfold emphasisRule
  dsimp only
  refine .ite (s.pushLeaf_moves _ _) ?_
  split
  · rename_i s' hclosed
    split at hclosed
    · exact resolve?_moves hclosed
    · exact absurd hclosed (Option.some_ne_none s').symm
  · exact .ite (s.openMark_moves ⟨rfl, rfl⟩ _) (s.pushLeaf_moves _ _)

theorem strikeRule_moves : (strikeRule env s site).Moves low s.parts := by
  unfold strikeRule
  refine .ite trivial ?_
  dsimp only
  split
  · rename_i s' hclosed
    split at hclosed
    · exact resolve?_moves hclosed
    · exact absurd hclosed (Option.some_ne_none s').symm
  · exact .ite (s.openMark_moves ⟨rfl, rfl⟩ _) trivial

theorem linkOpenRule_moves (image : Bool) : (linkOpenRule env s image).Moves low s.parts := by
  have hopened : Moves low s.parts (s.openMark env.source (.link image) (s.place + if image then 2 else 1)).parts :=
    s.openMark_moves ⟨rfl, rfl⟩ _
  show Moves low s.parts (State.parts (if s.hasRoom then _ else _))
  split
  · exact hopened
  · exact hopened

theorem linkCloseRule_moves : (linkCloseRule env s site).Moves low s.parts := by
  unfold linkCloseRule
  dsimp only
  split
  · split
    · trivial
    split
    · trivial
    rename_i above d below hfound
    refine .single (.wrap hfound fun bound habove _ => UpTo.markup ?_ _)
    have hends : ∀ a b, UpTo bound [leafOf env.source .linkMark a b] := fun a b => .single (leafOf_flat _ _ _ _)
    exact ((((settle_upTo habove).cons (leafOf_flat _ _ _ _)).append ((hends _ _).cons (leafOf_flat _ _ _ _))).append
      (.optional (.single (leafOf_flat _ _ _ _)))).append (hends _ _)
  · trivial

theorem addressRule_moves : (addressRule env s site).Moves (bound + 2) s.parts := by
  unfold addressRule
  split
  · trivial
  · exact .push (UpTo.markup (((UpTo.single (leafOf_flat _ _ _ _)).cons (leafOf_flat _ _ _ _)).cons
      (leafOf_flat _ _ _ _)) _)

theorem dashRule_moves : (dashRule env s site).Moves low s.parts :=
  .ite (s.pushLeaf_moves _ _) trivial

theorem commentRule_moves : (commentRule env s site).Moves low s.parts :=
  .ite (s.pushLeaf_moves _ _) trivial

/-- A body becomes a node.  Then another body waits, or the command is complete. -/
theorem closeBodyRule_moves : (closeBodyRule env s site).Moves low s.parts := by
  unfold closeBodyRule
  dsimp only
  refine .ite trivial ?_
  split
  · trivial
  rename_i above d below hfound
  have hflat : Wraps above d.opener (.markup .contentBlock (leafOf env.source .leftBrace d.span.start d.span.stop ::
      settle env.source above ++ [leafOf env.source .rightBrace s.place (s.place + 1)])) :=
    .between _ _ _ _ _ _ _ _ _
  have hclosed : ∀ s' : State, s'.parts = .done (.markup .contentBlock (leafOf env.source .leftBrace d.span.start
      d.span.stop :: settle env.source above ++ [leafOf env.source .rightBrace s.place (s.place + 1)])) :: below →
      Moves low s.parts (s'.finishCommand env.source).parts := by
    intro s' hparts
    have hwrapped : Move low s.parts s'.parts := hparts ▸ .wrap hfound hflat
    exact .head hwrapped s'.finishCommand_moves
  split
  · exact hclosed _ rfl
  · have hlevel := ({ s with parts := below } : State).level_eq
    have hmove : Move low s.parts
        (.waiting ⟨.body, ⟨s.place + 1, s.place + 1 + 1⟩, nextLevel below⟩ :: .done _ :: below) :=
      .another hfound hflat
    rw [← hlevel] at hmove
    exact .single hmove
  · exact hclosed _ rfl

include he

/-- **Every rule makes moves** where all rules are active. -/
theorem fullRule_moves (hs : s.Paired) (c : Char) : (fullRule env s site c).Moves (bound + 2) s.parts := by
  unfold fullRule
  refine .ite escapeRule_moves (.ite (commandRule_moves he hs _ _) ?_)
  refine .ite (.ite (commandRule_moves he hs _ _) trivial) (.ite (commandRule_moves he hs _ _) ?_)
  refine .ite referenceRule_moves (.ite (mathRule_moves he) (.ite codeRule_moves ?_))
  refine .ite (emphasisRule_moves c) (.ite strikeRule_moves (.ite (linkOpenRule_moves false) ?_))
  refine .ite (.ite (linkOpenRule_moves true) trivial) (.ite linkCloseRule_moves ?_)
  refine .ite addressRule_moves (.ite dashRule_moves (.ite commentRule_moves ?_))
  exact .ite closeBodyRule_moves trivial

/-- **Every rule makes moves** in a formula. -/
theorem templateRule_moves (hs : s.Paired) (c : Char) : (templateRule env s site c).Moves (bound + 2) s.parts := by
  unfold templateRule
  refine .ite (.ite (s.pushLeaf_moves _ _) trivial) (.ite (commandRule_moves he hs _ _) ?_)
  exact .ite closeBodyRule_moves trivial

omit he in
theorem openBraces_parts (n : Nat) (s : State) : (openBraces n s).parts = s.parts := by
  induction n generalizing s with
  | zero => rfl
  | succ n ih => exact ih _

omit he in
theorem plainText_moves (s : State) (c : Char) : Moves low s.parts (plainText env s site c).parts := by
  unfold plainText
  generalize plainRun s.nesting.inHead s.nesting.inBody 0 site.rest = run
  obtain ⟨n, opened⟩ := run
  dsimp only
  split
  · rw [← openBraces_parts opened s]
    exact (openBraces opened s).pushLeaf_moves _ _
  · exact (s.shift (literalEvent c)).pushLeaf_moves _ _

/-! ## Steps -/

omit he in
/-- What becomes of a verdict. -/
theorem Verdict.Moves.step {v : Verdict} {c : Prop} [Decidable c] {plain noted : State}
    (hplain : Markup.Moves low parts plain.parts) (hnoted : Markup.Moves low parts noted.parts) :
    v.Moves low parts → Markup.Moves low parts (State.parts (match v with
      | .claimed s => if c then s else s.shift .other
      | .declined => plain
      | .tooDeep => noted)) := by
  intro hv
  cases v with
  | claimed s =>
      dsimp only
      split
      · exact hv
      · exact hv
  | declined => exact hplain
  | tooDeep => exact hnoted

/-- **Every step of reading a region makes moves.** -/
theorem step_moves (hs : s.Paired) (segment : Span) (later : List Span) :
    Moves (bound + 2) s.parts (step env s segment later).parts := by
  unfold step
  split
  · unfold nextSegment
    split
    · exact .refl
    · show Moves _ _ (State.parts (if _ then _ else _))
      split
      · exact .push (leafOf_flat _ _ _ _)
      · exact .refl
  split
  · exact s.pushLeaf_moves _ _
  dsimp only
  split
  · exact .refl
  rename_i c _ _
  have hnoted : Moves (bound + 2) s.parts
      (plainText env (s.note (some s.place)) ⟨segment, env.source.slice s.place segment.stop⟩ c).parts :=
    plainText_moves (s.note (some s.place)) c
  refine Verdict.Moves.step (c := (c == '}' || c == '{') = true) (plainText_moves s c) hnoted ?_
  split
  · exact fullRule_moves he hs c
  · exact templateRule_moves he hs c

end Rules

end ComponentMarkup.Markup
