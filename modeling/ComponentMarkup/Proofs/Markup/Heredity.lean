import ComponentMarkup.Document.Grammar
import ComponentMarkup.Proofs.Markup.Pairing
import ComponentMarkup.Proofs.Text.Slices

/-!
# What the nodes of inline content have in common

A property of nodes that branches inherit from their children holds of all inline content, if it holds of the nodes
that rules make.  Most rules make leaves of plain kinds and branches over what has been read before.  The few other
nodes are listed in `Hereditary`: heads and verbatim bodies of commands, white space, braced bodies, and branches over
the nodes of a region inside the region.  Line breaks and bodies without a closing brace depend on where they stand;
what is known about that is left to the one who reads the region.

* `Hereditary` — a property that the rules hand on;
* `fullRule_has`, `templateRule_has`, `plainText_has`, `step_has` — a step makes nodes that have the property only;
* `readRegion_has`, `closeCommands_has` — so do reading a region and closing its commands.
-/

namespace ComponentMarkup.Tree

/-- Kinds of nodes that hold inline content. -/
def MarkupKind.holdsInline : MarkupKind → Bool
  | .inline | .paragraph | .heading | .tableCell | .lineContent | .mathContent => true
  | _ => false

/-- Kinds of leaves that hold what carries no meaning. -/
def MarkupKind.isTrivia : MarkupKind → Bool
  | .space | .newline | .quoteMarker => true
  | _ => false

/-- Kinds of nodes that are no trivia, hold no inline content and have no braces. -/
def MarkupKind.isOrdinary (kind : MarkupKind) : Bool :=
  !kind.isTrivia && !kind.holdsInline && kind != .contentBlock

/-- Kinds of nodes whose children are laid out in columns. -/
def MarkupKind.isTabular : MarkupKind → Bool
  | .table | .tableHeader | .tableRow => true
  | _ => false

/-- Ordinary kinds of nodes that stand for no other grammar and are not laid out in columns. -/
def MarkupKind.isPlain (kind : MarkupKind) : Bool :=
  kind.isOrdinary && ((Document.choice? (.markup kind)).isNone && !kind.isTabular)

end ComponentMarkup.Tree

namespace ComponentMarkup.Markup

open ComponentMarkup.Text ComponentMarkup.Tree

variable {P : Node → Prop} {src : Source} {kind : MarkupKind} {nodes others : List Node}

/-! ## Several nodes -/

/-- Every one of several nodes has a property. -/
def Each (P : Node → Prop) (nodes : List Node) : Prop :=
  ∀ n ∈ nodes, P n

namespace Each

theorem nil : Each P [] :=
  fun _ hn => absurd hn List.not_mem_nil

theorem cons {n : Node} (hn : P n) (h : Each P nodes) : Each P (n :: nodes) := by
  intro m hm
  rcases List.mem_cons.mp hm with rfl | hm
  · exact hn
  · exact h m hm

theorem append (h : Each P nodes) (h' : Each P others) : Each P (nodes ++ others) := by
  intro m hm
  rcases List.mem_append.mp hm with hm | hm
  · exact h m hm
  · exact h' m hm

theorem single {n : Node} (hn : P n) : Each P [n] :=
  nil.cons hn

theorem optional {c : Prop} [Decidable c] (h : Each P nodes) : Each P (if c then nodes else []) := by
  split
  · exact h
  · exact nil

theorem tail {n : Node} (h : Each P (n :: nodes)) : Each P nodes :=
  fun m hm => h m (List.mem_cons_of_mem n hm)

theorem imp {Q : Node → Prop} (h : Each P nodes) (himp : ∀ n, P n → Q n) : Each Q nodes :=
  fun n hn => himp n (h n hn)

end Each

/-! ## Parts -/

/-- A part whose nodes have a property. -/
def Part.Has (P : Node → Prop) : Part → Prop
  | .done node => P node
  | .waiting d => ∀ kind head, d.opener = .command kind head → kind.isPlain = true ∧ Each P head

/-- Parts whose nodes have a property. -/
def PartsHave (P : Node → Prop) (parts : List Part) : Prop :=
  ∀ part ∈ parts, part.Has P

/-- A state whose parts have a property. -/
def State.Has (P : Node → Prop) (s : State) : Prop :=
  PartsHave P s.parts

variable {parts above below : List Part}

namespace PartsHave

theorem push {part : Part} (hpart : part.Has P) (h : PartsHave P parts) : PartsHave P (part :: parts) := by
  intro other hother
  rcases List.mem_cons.mp hother with rfl | hother
  · exact hpart
  · exact h other hother

theorem append (h : PartsHave P above) (h' : PartsHave P below) : PartsHave P (above ++ below) := by
  intro part hpart
  rcases List.mem_append.mp hpart with hpart | hpart
  · exact h part hpart
  · exact h' part hpart

theorem flatMap {replace : Part → List Part} (h : PartsHave P parts)
    (hreplace : ∀ part : Part, part.Has P → PartsHave P (replace part)) : PartsHave P (parts.flatMap replace) := by
  intro part hpart
  obtain ⟨old, hold, hpart⟩ := List.mem_flatMap.mp hpart
  exact hreplace old (h old hold) part hpart

theorem found {accept blocks : Opener → Bool} {d : Delimiter} (h : PartsHave P parts)
    (hfound : findWaiting? accept blocks parts = some (above, d, below)) :
    PartsHave P above ∧ Part.Has P (.waiting d) ∧ PartsHave P below := by
  obtain ⟨rfl, _⟩ := findWaiting?_spec hfound
  refine ⟨fun part hpart => h part (List.mem_append_left _ hpart), h _ (by simp), ?_⟩
  exact fun part hpart => h part (List.mem_append_right _ (List.mem_cons_of_mem _ hpart))

end PartsHave

/-- A delimiter that opens no command has no nodes. -/
theorem Part.Has.waiting {d : Delimiter} (h : ∀ kind head, d.opener ≠ .command kind head) : Part.Has P (.waiting d) :=
  fun kind head heq => absurd heq (h kind head)

/-- A state without parts. -/
theorem State.Has.start (segments : List Span) : (State.start segments).Has P :=
  fun _ hpart => absurd hpart List.not_mem_nil

/-! ## What rules hand on -/

/-- A property that the nodes made by the rules have, if the nodes they are made of have it.  What is needed of the
stretch of a region inside the region is said by `Inner`. -/
structure Hereditary (env : Env) (Inner : Span → Prop) (P : Node → Prop) : Prop where
  leaf {kind : MarkupKind} {a b : Nat} (plain : kind.isPlain = true) : P (leafOf env.source kind a b)
  text {t : String} {s : Span} : P (.leaf (.markup .text) t s)
  space {a b : Nat} (white : isAllWhite (env.source.slice a b) = true) : P (leafOf env.source .space a b)
  branch {kind : MarkupKind} {nodes : List Node} (plain : kind.isPlain = true) (parts : Each P nodes) :
    P (.markup kind nodes)
  head (head : Head) : Each P (head.nodes env.source)
  verbatim (opening closing : Nat) : P (verbatimNode env.source opening closing)
  body {nodes : List Node} {a b c d : Nat} (parts : Each P nodes) :
    P (.markup .contentBlock (leafOf env.source .leftBrace a b :: nodes ++ [leafOf env.source .rightBrace c d]))
  unbraced {n : Node} (block : n.isMarkup .contentBlock = true) (has : P n) : Each P (unbrace n)
  line {inner : Span} (within : Inner inner) : P (.markup .lineContent (env.nested inner .full).value)
  formula {inner : Span} (within : Inner inner) : P (.markup .mathContent (env.nested inner .template).value)

variable {env : Env} {Inner : Span → Prop} {s : State} {site : Site} (hP : Hereditary env Inner P)

theorem State.Has.push {n : Node} (h : s.Has P) (hn : P n) : (s.push n).Has P :=
  PartsHave.push hn h

theorem State.Has.openBody (h : s.Has P) (brace : Nat) : (s.openBody brace).Has P :=
  PartsHave.push (.waiting (by simp)) h

namespace Hereditary

include hP

theorem joinText {n : Node} (hn : P n) (h : Each P nodes) : Each P (joinText n nodes) := by
  unfold Markup.joinText
  split
  · split
    · exact h.tail.cons hP.text
    · exact h.cons hn
  · exact h.cons hn

/-- The nodes that parts become have the property if the parts do. -/
theorem settle (h : PartsHave P parts) : Each P (settle env.source parts) := by
  have hnodes : Each P (parts.reverse.map (Part.node env.source)) := by
    intro n hn
    obtain ⟨part, hpart, rfl⟩ := List.mem_map.mp hn
    have hhas := h part (List.mem_reverse.mp hpart)
    cases part with
    | done node => exact hhas
    | waiting d => exact hP.leaf rfl
  unfold Markup.settle
  generalize parts.reverse.map (Part.node env.source) = ns at hnodes
  induction ns with
  | nil => exact .nil
  | cons n ns ih => exact hP.joinText (hnodes n List.mem_cons_self) (ih hnodes.tail)

theorem pushLeaf (h : s.Has P) (hkind : kind.isPlain = true) (stop : Nat) : (s.pushLeaf env.source kind stop).Has P :=
  h.push (hP.leaf hkind)

theorem openMark (h : s.Has P) {opener : Opener} (hopener : ∀ kind head, opener ≠ .command kind head) (stop : Nat) :
    (s.openMark env.source opener stop).Has P := by
  unfold State.openMark
  split
  · exact PartsHave.push (.waiting hopener) h
  · exact hP.pushLeaf (s := s.note (some s.place)) h rfl stop

/-- A finished command has the property as its head and its bodies do. -/
theorem finishCommand (h : s.Has P) : (s.finishCommand env.source).Has P := by
  unfold State.finishCommand
  split
  · rename_i above kind head span level below hfound
    obtain ⟨habove, hcommand, hbelow⟩ := PartsHave.found h hfound
    obtain ⟨hkind, hhead⟩ := hcommand kind head rfl
    exact PartsHave.push (hP.branch hkind (hhead.append (hP.settle habove))) hbelow
  · exact h

/-- What a degraded command leaves has the property. -/
theorem degradeCommand (h : s.Has P) : (s.degradeCommand env.source).Has P := by
  unfold State.degradeCommand
  split
  · exact h
  rename_i above body below hbody
  obtain ⟨habove, _, hbelow⟩ := PartsHave.found h hbody
  split
  · exact h
  rename_i between command rest hcommand
  obtain ⟨hbetween, _, hrest⟩ := PartsHave.found hbelow hcommand
  have htext : ∀ d : Delimiter, Part.Has P (.done (leafOf env.source .text d.span.start d.span.stop)) :=
    fun d => hP.leaf rfl
  show PartsHave P (above ++ .done _ :: _ ++ .done _ :: rest)
  refine (habove.append (.push (htext body) (hbetween.flatMap fun part hpart => ?_))).append (.push (htext command) hrest)
  cases part with
  | waiting d => exact fun old hold => List.mem_singleton.mp hold ▸ hpart
  | done node =>
      dsimp only
      split
      · rename_i hblock
        intro part hmem
        obtain ⟨n, hn, rfl⟩ := List.mem_map.mp hmem
        exact hP.unbraced hblock hpart n (List.mem_reverse.mp hn)
      · exact fun old hold => List.mem_singleton.mp hold ▸ hpart

end Hereditary

/-! ## Rules -/

/-- A verdict that leaves parts with a property. -/
def Verdict.Has (P : Node → Prop) : Verdict → Prop
  | .claimed s => s.Has P
  | .declined => True
  | .tooDeep => True

theorem Verdict.Has.ite {c : Prop} [Decidable c] {v w : Verdict} (hv : v.Has P) (hw : w.Has P) :
    (if c then v else w).Has P := by
  split
  · exact hv
  · exact hw

section Rules

variable (hs : s.Has P)

include hP

/-- The content of an inline component is white space and a region of its own, and both end within the stretch. -/
theorem lineContent_has {limit start : Nat} (hlimit : start ≤ limit)
    (hinner : ∀ a b, a ≤ b → b ≤ limit → Inner ⟨a, b⟩) : Each P (lineContent env s limit start).1.value := by
  have hlength := lineContentLength_le (s.nesting.inside .brace) 0 (env.source.slice start limit)
  have hslice := env.source.length_slice_le start limit
  unfold lineContent
  dsimp only
  generalize hstop : start + lineContentLength (s.nesting.inside .brace) 0 (env.source.slice start limit) = stop
  have hbehind : start ≤ stop := by omega
  have hspace : Each P (if start < start + runLength isWhitespace (env.source.slice start stop) then
      [leafOf env.source .space start (start + runLength isWhitespace (env.source.slice start stop))] else []) := by
    refine .optional (.single (hP.space ?_))
    rw [env.source.slice_runLength isWhitespace hbehind]
    exact List.all_takeWhile
  split
  · rename_i hlt
    exact hspace.append (.single (hP.line (hinner _ _ (Nat.le_of_lt hlt) (by omega))))
  · exact hspace

include hs

theorem escapeRule_has : (escapeRule env s site).Has P := by
  unfold escapeRule
  split
  · exact .ite (hP.pushLeaf hs rfl _) trivial
  · trivial

theorem commandRule_has {width : Nat} (hkind : kind.isPlain = true)
    (hinner : ∀ a b, a ≤ b → b ≤ site.segment.stop → Inner ⟨a, b⟩) : (commandRule env s site kind width).Has P := by
  unfold commandRule
  dsimp only
  refine .ite trivial ?_
  split
  · trivial
  rename_i head _
  have hhead : Each P (head.nodes env.source) := hP.head head
  refine .ite trivial (.ite trivial ?_)
  split
  · exact hs.push (hP.branch hkind (hhead.append (.single (hP.verbatim _ _))))
  refine .ite ?_ (.ite trivial ?_)
  · -- a braced body, which stays open
    have hcommand : ∀ level, Part.Has P
        (.waiting ⟨.command kind (head.nodes env.source), ⟨s.place, head.stop⟩, level⟩) := by
      intro level kind' head' heq
      obtain ⟨rfl, rfl⟩ := Opener.command.inj heq
      exact ⟨hkind, hhead⟩
    have hwaiting : ((s.shift .introducer).pushWaiting (.command kind (head.nodes env.source))
        ⟨s.place, head.stop⟩).Has P := PartsHave.push (hcommand _) hs
    exact hwaiting.openBody _
  split
  · rename_i hcolon
    simp only [Bool.and_eq_true, beq_iff_eq] at hcolon
    have hlt : head.stop + 1 ≤ site.segment.stop := env.source.lt_of_head?_slice hcolon.1.2
    exact hs.push (hP.branch hkind (hhead.append ((lineContent_has hP hlt hinner).cons (hP.leaf rfl))))
  · exact hs.push (hP.branch hkind hhead)

theorem referenceRule_has : (referenceRule env s site).Has P := by
  unfold referenceRule
  split
  · trivial
  · exact .ite trivial (hs.push (hP.branch rfl (hP.head _)))

/-- A formula ends within the stretch. -/
theorem mathRule_has (hrest : site.rest = env.source.slice s.place site.segment.stop)
    (hinner : ∀ a b, a ≤ b → b ≤ site.segment.stop → Inner ⟨a, b⟩) : (mathRule env s site).Has P := by
  unfold mathRule
  split
  · rename_i first c cs hchars
    refine .ite trivial ?_
    split
    · trivial
    rename_i n hlength
    have hlt := mathLength?_lt hlength
    have hslice := env.source.length_slice_le s.place site.segment.stop
    rw [← hrest, hchars] at hslice
    simp only [List.length_cons] at hslice hlt
    have hformula := hP.formula (hinner (s.place + 1) (s.place + 1 + n) (by omega) (by omega))
    refine .ite trivial (hs.push (hP.branch rfl ?_))
    exact ((Each.single (hP.leaf rfl)).cons hformula).cons (hP.leaf rfl)
  · trivial

theorem codeRule_has : (codeRule env s site).Has P := by
  unfold codeRule
  dsimp only
  split
  · exact hP.pushLeaf hs rfl _
  · refine hs.push (hP.branch rfl ?_)
    exact ((Each.optional (.single (hP.leaf rfl))).append (.single (hP.leaf rfl))).cons (hP.leaf rfl)

theorem resolve?_has {accept : Opener → Bool} {stop : Nat} {s' : State} (hkind : kind.isPlain = true)
    (h : resolve? env s accept kind stop = some s') : s'.Has P := by
  obtain ⟨⟨above, d, below⟩, hfound, rfl⟩ := Option.map_eq_some_iff.mp h
  obtain ⟨habove, _, hbelow⟩ := PartsHave.found hs hfound
  refine PartsHave.push (hP.branch hkind ?_) hbelow
  exact ((hP.settle habove).append (.single (hP.leaf rfl))).cons (hP.leaf rfl)

theorem emphasisRule_has (mark : Char) : (emphasisRule env s site mark).Has P := by
  unfold emphasisRule
  dsimp only
  refine .ite (hP.pushLeaf hs rfl _) ?_
  split
  · rename_i s' hclosed
    split at hclosed
    · refine resolve?_has hP hs ?_ hclosed
      split <;> rfl
    · exact absurd hclosed (by simp)
  · exact .ite (hP.openMark hs (by simp) _) (hP.pushLeaf hs rfl _)

theorem strikeRule_has : (strikeRule env s site).Has P := by
  unfold strikeRule
  refine .ite trivial ?_
  dsimp only
  split
  · rename_i s' hclosed
    split at hclosed
    · exact resolve?_has hP hs rfl hclosed
    · exact absurd hclosed (by simp)
  · exact .ite (hP.openMark hs (by simp) _) trivial

theorem linkOpenRule_has (image : Bool) : (linkOpenRule env s image).Has P := by
  have hopened : (s.openMark env.source (.link image) (s.place + if image then 2 else 1)).Has P :=
    hP.openMark hs (by simp) _
  show State.Has P (if s.hasRoom then _ else _)
  split
  · exact hopened
  · exact hopened

theorem linkCloseRule_has : (linkCloseRule env s site).Has P := by
  unfold linkCloseRule
  dsimp only
  split
  · split
    · trivial
    split
    · trivial
    rename_i above d below hfound
    obtain ⟨habove, _, hbelow⟩ := PartsHave.found hs hfound
    refine PartsHave.push (hP.branch ?_ ?_) hbelow
    · split <;> rfl
    · have hends : ∀ a b, Each P [leafOf env.source .linkMark a b] := fun a b => .single (hP.leaf rfl)
      exact ((((hP.settle habove).append ((hends _ _).cons (hP.leaf rfl))).append
        (.optional (.single (hP.leaf rfl)))).append (hends _ _)).cons (hP.leaf rfl)
  · trivial

theorem addressRule_has : (addressRule env s site).Has P := by
  unfold addressRule
  split
  · trivial
  · exact hs.push (hP.branch rfl (((Each.single (hP.leaf rfl)).cons (hP.leaf rfl)).cons (hP.leaf rfl)))

theorem dashRule_has : (dashRule env s site).Has P :=
  .ite (hP.pushLeaf hs rfl _) trivial

theorem commentRule_has : (commentRule env s site).Has P :=
  .ite (hP.pushLeaf hs rfl _) trivial

/-- A body with both of its braces. -/
theorem closeBodyRule_has : (closeBodyRule env s site).Has P := by
  unfold closeBodyRule
  dsimp only
  refine .ite trivial ?_
  split
  · trivial
  rename_i above d below hfound
  obtain ⟨habove, _, hbelow⟩ := PartsHave.found hs hfound
  have hclosed : (({ s with parts := .done (.markup .contentBlock (leafOf env.source .leftBrace d.span.start
      d.span.stop :: settle env.source above ++ [leafOf env.source .rightBrace s.place (s.place + 1)])) ::
      below }.shift (.closing .brace)).jump (s.place + 1) : State).Has P :=
    PartsHave.push (hP.body (hP.settle habove)) hbelow
  split
  · exact hP.finishCommand hclosed
  · exact hclosed.openBody _
  · exact hP.finishCommand hclosed

/-- **Every rule makes nodes that have the property**, where all rules are active. -/
theorem fullRule_has (hrest : site.rest = env.source.slice s.place site.segment.stop)
    (hinner : ∀ a b, a ≤ b → b ≤ site.segment.stop → Inner ⟨a, b⟩) (c : Char) : (fullRule env s site c).Has P := by
  unfold fullRule
  refine .ite (escapeRule_has hP hs) (.ite (commandRule_has hP hs rfl hinner) ?_)
  refine .ite (.ite (commandRule_has hP hs rfl hinner) trivial) (.ite (commandRule_has hP hs rfl hinner) ?_)
  refine .ite (referenceRule_has hP hs) (.ite (mathRule_has hP hs hrest hinner) (.ite (codeRule_has hP hs) ?_))
  refine .ite (emphasisRule_has hP hs c) (.ite (strikeRule_has hP hs) (.ite (linkOpenRule_has hP hs false) ?_))
  refine .ite (.ite (linkOpenRule_has hP hs true) trivial) (.ite (linkCloseRule_has hP hs) ?_)
  refine .ite (addressRule_has hP hs) (.ite (dashRule_has hP hs) (.ite (commentRule_has hP hs) ?_))
  exact .ite (closeBodyRule_has hP hs) trivial

/-- **Every rule makes nodes that have the property**, in a formula. -/
theorem templateRule_has (hinner : ∀ a b, a ≤ b → b ≤ site.segment.stop → Inner ⟨a, b⟩) (c : Char) :
    (templateRule env s site c).Has P := by
  unfold templateRule
  refine .ite (.ite (hP.pushLeaf hs rfl _) trivial) (.ite (commandRule_has hP hs rfl hinner) ?_)
  exact .ite (closeBodyRule_has hP hs) trivial

omit hP hs in
theorem openBraces_has (n : Nat) {s : State} (hs : s.Has P) : (openBraces n s).Has P := by
  induction n generalizing s with
  | zero => exact hs
  | succ n ih => exact ih hs

theorem plainText_has (c : Char) : (plainText env s site c).Has P := by
  unfold plainText
  generalize plainRun s.nesting.inHead s.nesting.inBody 0 site.rest = run
  obtain ⟨n, opened⟩ := run
  dsimp only
  split
  · exact hP.pushLeaf (openBraces_has opened hs) rfl _
  · exact hP.pushLeaf (s := s.shift (literalEvent c)) hs rfl _

/-! ## Reading a region -/

omit hP hs in
/-- What becomes of a verdict. -/
theorem Verdict.Has.step {v : Verdict} {c : Prop} [Decidable c] {plain noted : State} (hplain : plain.Has P)
    (hnoted : noted.Has P) : v.Has P → State.Has P (match v with
      | .claimed s => if c then s else s.shift .other
      | .declined => plain
      | .tooDeep => noted) := by
  intro hv
  cases v with
  | claimed s =>
      dsimp only
      split
      · exact hv
      · exact hv
  | declined => exact hplain
  | tooDeep => exact hnoted

/-- **A step makes nodes that have the property**, if the line break behind the current stretch has it. -/
theorem step_has {segment : Span} {later : List Span}
    (hbreak : ∀ next, later.head? = some next → P (leafOf env.source .newline segment.stop next.start))
    (hinner : ∀ a b, a ≤ b → b ≤ segment.stop → Inner ⟨a, b⟩) : (step env s segment later).Has P := by
  unfold step
  split
  · unfold nextSegment
    split
    · exact hs
    · show PartsHave P (State.parts (if _ then _ else _))
      split
      · exact PartsHave.push (hbreak _ rfl) hs
      · exact hs
  split
  · exact hP.pushLeaf hs rfl _
  dsimp only
  split
  · exact hs
  rename_i c _ _
  have hnoted : (plainText env (s.note (some s.place)) ⟨segment, env.source.slice s.place segment.stop⟩ c).Has P :=
    plainText_has (s := s.note (some s.place)) hP hs c
  refine Verdict.Has.step (c := (c == '}' || c == '{') = true) (plainText_has hP hs c) hnoted ?_
  split
  · exact fullRule_has hP hs rfl hinner c
  · exact templateRule_has hP hs hinner c

/-- **Reading a region makes nodes that have the property.**  What a step relies on is an invariant of the steps. -/
theorem readRegion_has {I : State → Prop} (hstart : I s)
    (hstep : ∀ s segment later, I s → s.segments = segment :: later → I (step env s segment later))
    (hbreak : ∀ s segment next later, I s → s.segments = segment :: next :: later →
      P (leafOf env.source .newline segment.stop next.start))
    (hinner : ∀ s segment later, I s → s.segments = segment :: later →
      ∀ a b, a ≤ b → b ≤ segment.stop → Inner ⟨a, b⟩) (fuel : Nat) : (readRegion env fuel s).Has P := by
  induction fuel generalizing s with
  | zero => exact hs
  | succ fuel ih =>
      unfold readRegion
      split
      · exact hs
      · rename_i segment later hsegments
        refine ih (step_has hP hs (fun next hnext => ?_) (hinner s segment later hstart hsegments))
          (hstep s segment later hstart hsegments)
        obtain ⟨rest, rfl⟩ : ∃ rest, later = next :: rest := List.head?_eq_some_iff.mp hnext
        exact hbreak s segment next rest hstart hsegments

/-- **Closing the commands left open makes nodes that have the property**, if bodies have it that are closed by the end
of the text. -/
theorem closeCommands_has {I : State → Prop} (hstart : I s) (hclose : ∀ s, I s → I (closeCommand env s))
    (hopen : ∀ s above d below, I s → env.atEnd = true → lastBody? s.parts = some (above, d, below) →
      Each P (settle env.source above) →
      P (.markup .contentBlock (leafOf env.source .leftBrace d.span.start d.span.stop :: settle env.source above)))
    (fuel : Nat) : (closeCommands env fuel s).Has P := by
  induction fuel generalizing s with
  | zero => exact hs
  | succ fuel ih =>
      rw [closeCommands_succ]
      refine ih ?_ (hclose s hstart)
      unfold closeCommand
      cases hfound : lastBody? s.parts with
      | none => exact hs
      | some found =>
          obtain ⟨above, d, below⟩ := found
          obtain ⟨habove, _, hbelow⟩ := PartsHave.found hs hfound
          dsimp only
          split
          · rename_i hend
            refine hP.finishCommand (PartsHave.push ?_ hbelow)
            exact hopen s above d below hstart hend hfound (hP.settle habove)
          · exact hP.degradeCommand hs

end Rules

end ComponentMarkup.Markup
