import ComponentMarkup.Proofs.Markup.Arrangement

/-!
# Inline content is composed

While a region is read, its nodes stand on a stack among delimiters that wait.  Right above an open command there are
its closed bodies and then the body that is still open, and everything else on the stack is a phrase or a mark.  So
where a command is finished, what follows its head are its bodies and nothing else, and where any other delimiter finds
its partner, what stands between the two are phrases.

* `Layered` — a stack of parts, with the bodies of open commands in layers of their own;
* `Layered.found`, `Layered.command?` — what is above a delimiter and below it;
* `fullRule_layered`, `templateRule_layered`, `step_layered` — every step keeps the layers;
* `inlineNodes_composed` — the nodes of a region are phrases.
-/

namespace ComponentMarkup.Markup

open ComponentMarkup.Text ComponentMarkup.Tree

variable {src : Source} {kind : MarkupKind} {nodes : List Node} {n : Node} {sort : Kind → Bool}
  {parts above below : List Part} {d : Delimiter} {bodies : Bool}

/-! ## Nodes that parts become -/

theorem joinText_sorted (hn : Sorted sort n) (h : Each (Sorted sort) nodes) : Each (Sorted sort) (joinText n nodes) := by
  unfold joinText
  split
  · split
    · exact h.tail.cons ⟨composed_leaf _ _ _, hn.sort⟩
    · exact h.cons hn
  · exact h.cons hn

/-- A part that becomes a node of a sort.  Delimiters become text. -/
def Part.Becomes (sort : Kind → Bool) : Part → Prop
  | .done n => Sorted sort n
  | .waiting _ => sort (.markup .text) = true

theorem settle_sorted (h : ∀ part ∈ parts, part.Becomes sort) : Each (Sorted sort) (settle src parts) := by
  have hnodes : Each (Sorted sort) (parts.reverse.map (Part.node src)) := by
    intro n hn
    obtain ⟨part, hpart, rfl⟩ := List.mem_map.mp hn
    have hbecomes := h part (List.mem_reverse.mp hpart)
    cases part with
    | done n => exact hbecomes
    | waiting d => exact leafOf_sorted hbecomes
  unfold settle
  generalize parts.reverse.map (Part.node src) = ns at hnodes
  induction ns with
  | nil => exact .nil
  | cons n ns ih => exact joinText_sorted (hnodes n List.mem_cons_self) (ih hnodes.tail)

/-- A body of a command that loses its braces: they become text. -/
theorem unbrace_phrases (h : Composed n) (hkind : n.kind = .markup .contentBlock) :
    Each (Sorted Kind.isPhrase) (unbrace n) := by
  intro m hm
  obtain ⟨child, hchild, rfl⟩ := List.mem_map.mp hm
  have hcomposed := h.child hchild
  have hall : ∀ k ∈ n.children.map Node.kind,
      k.isPhrase = true ∨ k = .markup .leftBrace ∨ k = .markup .rightBrace :=
    (h.here.children hkind).resolve_left (List.ne_nil_of_mem hchild)
  have hleaf : ∀ k, child.kind = .markup k → (∀ kinds, ¬ k.Arranges kinds) →
      Sorted Kind.isPhrase (child.withKind (.markup .text)) := by
    intro k hk hnever
    have hhere := hcomposed.here
    cases child with
    | leaf => exact ⟨composed_leaf _ _ _, rfl⟩
    | fault => exact absurd hk nofun
    | inner other span host count faulty children =>
        obtain rfl : other = .markup k := hk
        exact absurd hhere (hnever _)
  split
  · rename_i hbrace
    rcases (Bool.or_eq_true _ _).mp hbrace with hleft | hright
    · exact hleaf .leftBrace (beq_iff_eq.mp hleft) fun _ => id
    · exact hleaf .rightBrace (beq_iff_eq.mp hright) fun _ => id
  · rename_i hother
    rcases hall _ (List.mem_map_of_mem hchild) with hphrase | hleft | hright
    · exact ⟨hcomposed, hphrase⟩
    · exact absurd (by rw [Node.isMarkup, hleft]; rfl) hother
    · exact absurd (by rw [Node.isMarkup, Node.isMarkup, hright]; rfl) hother

/-! ## Layers -/

/-- Kinds of commands that have bodies. -/
def HasBodies (kind : MarkupKind) : Prop :=
  kind = .inlineComponent ∨ kind = .interpolation

/-- Parts of a region, last first.  `bodies` tells whether a command is open with all of its bodies so far closed. -/
inductive Layered : (bodies : Bool) → List Part → Prop
  | nil : Layered false []
  | phrase {n : Node} {parts : List Part} (node : Sorted Kind.isPhrase n) (below : Layered false parts) :
      Layered false (.done n :: parts)
  | mark {d : Delimiter} {parts : List Part} (opener : d.opener.isCommand = false ∧ d.opener.isBody = false)
      (below : Layered false parts) : Layered false (.waiting d :: parts)
  | command {kind : MarkupKind} {head : List Node} {span : Span} {level : Nat} {parts : List Part}
      (kinds : HasBodies kind) (quiet : Each (Sorted Kind.isQuiet) head) (below : Layered false parts) :
      Layered true (.waiting ⟨.command kind head, span, level⟩ :: parts)
  | block {n : Node} {parts : List Part} (node : Sorted (· == .markup .contentBlock) n) (below : Layered true parts) :
      Layered true (.done n :: parts)
  | body {span : Span} {level : Nat} {parts : List Part} (below : Layered true parts) :
      Layered false (.waiting ⟨.body, span, level⟩ :: parts)

/-- A part that belongs to no command. -/
def Part.IsFree : Part → Prop
  | .done n => Sorted Kind.isPhrase n
  | .waiting d => d.opener.isCommand = false ∧ d.opener.isBody = false

theorem settle_phrases (h : ∀ part ∈ parts, part.IsFree) : Each (Sorted Kind.isPhrase) (settle src parts) := by
  refine settle_sorted fun part hpart => ?_
  have hfree := h part hpart
  cases part with
  | done n => exact hfree
  | waiting d => exact (rfl : Kind.isPhrase (.markup .text) = true)

namespace Layered

/-- Free parts may be put on top. -/
theorem append (habove : ∀ part ∈ above, part.IsFree) (h : Layered false below) : Layered false (above ++ below) := by
  induction above with
  | nil => exact h
  | cons part above ih =>
      have hrest := ih fun p hp => habove p (List.mem_cons_of_mem part hp)
      have hpart := habove part List.mem_cons_self
      cases part with
      | done n => exact .phrase hpart hrest
      | waiting d => exact .mark hpart hrest

/-- A search that does not look past bodies finds a mark above which all is free, or a body of an open command. -/
theorem found {accept blocks : Opener → Bool} (h : Layered false parts)
    (hbody : ∀ opener : Opener, opener.isBody = true → accept opener = true ∨ blocks opener = true)
    (hfound : findWaiting? accept blocks parts = some (above, d, below)) :
    (∀ part ∈ above, part.IsFree) ∧ Layered d.opener.isBody below := by
  induction parts generalizing above with
  | nil => exact absurd hfound (by simp [findWaiting?])
  | cons part parts ih =>
      have hmore : ∀ {above' : List Part}, part.IsFree → (∀ p ∈ above', p.IsFree) → ∀ p ∈ part :: above', p.IsFree := by
        intro above' hpart habove p hp
        rcases List.mem_cons.mp hp with rfl | hp
        · exact hpart
        · exact habove p hp
      cases h with
      | phrase node rest =>
          obtain ⟨⟨above', d', below'⟩, hlater, heq⟩ := Option.map_eq_some_iff.mp hfound
          obtain ⟨rfl, rfl, rfl⟩ : _ ∧ d' = d ∧ below' = below := by simpa using heq
          obtain ⟨habove, hbelow⟩ := ih rest hlater
          exact ⟨hmore node habove, hbelow⟩
      | @mark e _ opener rest =>
          rw [findWaiting?] at hfound
          by_cases haccept : accept e.opener = true
          · rw [if_pos haccept] at hfound
            obtain ⟨rfl, rfl, rfl⟩ : [] = above ∧ e = d ∧ parts = below := by simpa using hfound
            exact ⟨fun p hp => absurd hp List.not_mem_nil, opener.2 ▸ rest⟩
          · rw [if_neg haccept] at hfound
            split at hfound
            · exact absurd hfound (by simp)
            · obtain ⟨⟨above', d', below'⟩, hlater, heq⟩ := Option.map_eq_some_iff.mp hfound
              obtain ⟨rfl, rfl, rfl⟩ : _ ∧ d' = d ∧ below' = below := by simpa using heq
              obtain ⟨habove, hbelow⟩ := ih rest hlater
              exact ⟨hmore opener habove, hbelow⟩
      | body rest =>
          rw [findWaiting?] at hfound
          rcases hbody .body rfl with haccept | hblock
          · rw [if_pos haccept] at hfound
            obtain ⟨rfl, rfl, rfl⟩ : [] = above ∧ _ = d ∧ parts = below := by simpa using hfound
            exact ⟨fun p hp => absurd hp List.not_mem_nil, rest⟩
          · by_cases haccept : accept .body = true
            · rw [if_pos haccept] at hfound
              obtain ⟨rfl, rfl, rfl⟩ : [] = above ∧ _ = d ∧ parts = below := by simpa using hfound
              exact ⟨fun p hp => absurd hp List.not_mem_nil, rest⟩
            · rw [if_neg haccept, if_pos hblock] at hfound
              exact absurd hfound (by simp)

/-- Above a mark or link that finds its partner there are phrases, and what is below stays layered. -/
theorem mark? {accept : Opener → Bool} (h : Layered false parts)
    (haccept : ∀ opener : Opener, accept opener = true → opener.isCommand = false ∧ opener.isBody = false)
    (hfound : findWaiting? accept Opener.isBarrier parts = some (above, d, below)) :
    (∀ part ∈ above, part.IsFree) ∧ Layered false below := by
  have hbody : ∀ opener : Opener, opener.isBody = true → accept opener = true ∨ opener.isBarrier = true := by
    intro opener hbody
    cases opener with
    | body => exact .inr rfl
    | _ => exact absurd hbody Bool.false_ne_true
  have hparts := h.found hbody hfound
  obtain ⟨-, hopener⟩ := findWaiting?_spec hfound
  rwa [(haccept _ hopener).2] at hparts

/-- Above the last open body there are phrases, and below it the closed bodies of its command. -/
theorem body? (h : Layered false parts) (hfound : lastBody? parts = some (above, d, below)) :
    (∀ part ∈ above, part.IsFree) ∧ Layered true below := by
  have hbody : ∀ opener : Opener, opener.isBody = true → opener.isBody = true ∨ false = true := fun _ => .inl
  have hparts := h.found hbody hfound
  obtain ⟨-, hopener⟩ := findWaiting?_spec hfound
  rwa [hopener] at hparts

/-- Above a command whose bodies are closed there are these bodies. -/
theorem command? (h : Layered true parts) : ∃ blocks kind head span level below,
    lastCommand? parts = some (blocks.map .done, ⟨.command kind head, span, level⟩, below) ∧
      Each (Sorted (· == .markup .contentBlock)) blocks ∧ HasBodies kind ∧ Each (Sorted Kind.isQuiet) head ∧
      Layered false below := by
  generalize hbodies : true = bodies at h
  induction h with
  | nil => cases hbodies
  | phrase => cases hbodies
  | mark => cases hbodies
  | body => cases hbodies
  | @command kind head span level parts kinds quiet below =>
      exact ⟨[], kind, head, span, level, parts, rfl, .nil, kinds, quiet, below⟩
  | @block n parts node _ ih =>
      obtain ⟨blocks, kind, head, span, level, below, hfound, hblocks, hrest⟩ := ih hbodies
      refine ⟨n :: blocks, kind, head, span, level, below, ?_, hblocks.cons node, hrest⟩
      rw [lastCommand?, findWaiting?, ← lastCommand?, hfound]
      rfl

/-- Where no body is open, all is free. -/
theorem free (h : Layered false parts) (hnone : lastBody? parts = none) : ∀ part ∈ parts, part.IsFree := by
  induction parts with
  | nil => exact fun part hpart => absurd hpart List.not_mem_nil
  | cons part parts ih =>
      intro p hp
      cases h with
      | phrase node rest =>
          rcases List.mem_cons.mp hp with rfl | hp
          · exact node
          · exact ih rest (Option.map_eq_none_iff.mp hnone) p hp
      | mark opener rest =>
          rw [lastBody?, findWaiting?, opener.2] at hnone
          rcases List.mem_cons.mp hp with rfl | hp
          · exact opener
          · exact ih rest (Option.map_eq_none_iff.mp hnone) p hp
      | body rest => exact absurd hnone (by simp [lastBody?, findWaiting?, Opener.isBody])

end Layered

/-! ## States -/

/-- A state whose parts are layered. -/
def State.Layered (s : State) : Prop :=
  Markup.Layered false s.parts

variable {env : Env} {s : State} {site : Site}

namespace State.Layered

theorem push (h : s.Layered) (hn : Sorted Kind.isPhrase n) : (s.push n).Layered :=
  .phrase hn h

theorem pushLeaf (h : s.Layered) (hkind : Kind.isPhrase (.markup kind) = true) (stop : Nat) :
    (s.pushLeaf src kind stop).Layered :=
  h.push (leafOf_sorted hkind)

theorem openMark (h : s.Layered) {opener : Opener} (hopener : opener.isCommand = false ∧ opener.isBody = false)
    (stop : Nat) : (s.openMark src opener stop).Layered := by
  unfold State.openMark
  split
  · exact .mark hopener h
  · exact pushLeaf (s := s.note (some s.place)) h rfl stop

/-- A body is opened behind the head of a command, or behind another body. -/
theorem openBody (h : Markup.Layered true s.parts) (brace : Nat) : (s.openBody brace).Layered :=
  .body h

/-- What follows the head of a finished command are its bodies. -/
theorem finishCommand (h : Markup.Layered true s.parts) : (s.finishCommand src).Layered := by
  obtain ⟨blocks, kind, head, span, level, below, hfound, hblocks, hkind, hhead, hbelow⟩ := h.command?
  unfold State.finishCommand
  rw [hfound]
  have hbodies : Each (Sorted (· == .markup .contentBlock)) (settle src (blocks.map .done)) := by
    refine settle_sorted fun part hpart => ?_
    obtain ⟨block, hblock, rfl⟩ := List.mem_map.mp hpart
    exact hblocks block hblock
  have hvoiced : ∀ k ∈ voiced ((head ++ settle src (blocks.map .done)).map Node.kind), k = .markup .contentBlock := by
    rw [List.map_append, voiced_append, voiced_quiet hhead.kinds, List.nil_append]
    exact fun k hk => beq_iff_eq.mp (hbodies.voiced k hk)
  refine .phrase ?_ hbelow
  have hparts : Each Composed (head ++ settle src (blocks.map .done)) := hhead.composed.append hbodies.composed
  rcases hkind with rfl | rfl
  · exact ⟨composed_branch (.blocks hvoiced) hparts, rfl⟩
  · exact ⟨composed_branch (.inl hvoiced) hparts, rfl⟩

/-- A command that is turned back into text leaves phrases. -/
theorem degradeCommand (h : s.Layered) : (s.degradeCommand src).Layered := by
  unfold State.degradeCommand
  split
  · exact h
  rename_i above body below hbody
  obtain ⟨habove, hbelow⟩ := Markup.Layered.body? h hbody
  obtain ⟨blocks, kind, head, span, level, rest, hcommand, hblocks, -, -, hrest⟩ := hbelow.command?
  rw [hcommand]
  have htext : ∀ d : Delimiter, Sorted Kind.isPhrase (leafOf src .text d.span.start d.span.stop) :=
    fun d => leafOf_sorted rfl
  show Markup.Layered false (above ++ .done _ :: (blocks.map Part.done).flatMap _ ++ .done _ :: rest)
  refine .append (fun part hpart => ?_) (.phrase (htext _) hrest)
  rcases List.mem_append.mp hpart with hpart | hpart
  · exact habove part hpart
  rcases List.mem_cons.mp hpart with rfl | hpart
  · exact htext body
  obtain ⟨old, hold, hpart⟩ := List.mem_flatMap.mp hpart
  obtain ⟨block, hblock, rfl⟩ := List.mem_map.mp hold
  have hkind : block.kind = .markup .contentBlock := beq_iff_eq.mp (hblocks block hblock).sort
  dsimp only at hpart
  rw [if_pos (show block.isMarkup .contentBlock = true from beq_iff_eq.mpr hkind)] at hpart
  obtain ⟨n, hn, rfl⟩ := List.mem_map.mp hpart
  exact unbrace_phrases (hblocks block hblock).composed hkind n (List.mem_reverse.mp hn)

end State.Layered

/-! ## Rules -/

/-- A verdict that leaves layered parts. -/
def Verdict.Layered : Verdict → Prop
  | .claimed s => s.Layered
  | .declined => True
  | .tooDeep => True

theorem Verdict.Layered.ite {c : Prop} [Decidable c] {v w : Verdict} (hv : v.Layered) (hw : w.Layered) :
    (if c then v else w).Layered := by
  split
  · exact hv
  · exact hw

/-- Regions inside a region are read as phrases. -/
def Env.NestsPhrases (env : Env) : Prop :=
  ∀ inner mode, Each (Sorted Kind.isPhrase) (env.nested inner mode).value

/-- Nodes of a sort between marks. -/
theorem voiced_marked {opening closing : MarkupKind} {a b c d : Nat} (h : Each (Sorted sort) nodes)
    (hopening : Kind.isQuiet (.markup opening) = true) (hclosing : Kind.isQuiet (.markup closing) = true) :
    ∀ k ∈ voiced ((leafOf src opening a b :: nodes ++ [leafOf src closing c d]).map Node.kind), sort k = true := by
  have hback : Each (Sorted Kind.isQuiet) [leafOf src closing c d] := .single (leafOf_sorted hclosing)
  rw [List.map_append, voiced_append, List.map_cons, kind_leafOf, voiced_cons_quiet hopening,
    voiced_quiet hback.kinds, List.append_nil]
  exact h.voiced

theorem composed_marked {opening closing : MarkupKind} {a b c d : Nat} (h : Each Composed nodes) :
    Each Composed (leafOf src opening a b :: nodes ++ [leafOf src closing c d]) :=
  (h.append (.single (composed_leaf _ _ _))).cons (composed_leaf _ _ _)

section Rules

variable (hnested : env.NestsPhrases) (hs : s.Layered)

include hnested in
/-- The content of an inline component is quiet but for a region of its own, if there is one. -/
theorem lineContent_composed (limit start : Nat) :
    Each Composed (lineContent env s limit start).1.value ∧ ∃ line : Bool,
      voiced ((lineContent env s limit start).1.value.map Node.kind) =
        if line then [.markup .lineContent] else [] := by
  unfold lineContent
  dsimp only
  generalize start + lineContentLength (s.nesting.inside .brace) 0 (env.source.slice start limit) = stop
  generalize start + runLength isWhitespace (env.source.slice start stop) = content
  have hspace : Each (Sorted Kind.isQuiet) (if start < content then [leafOf env.source .space start content] else []) :=
    .optional (.single (leafOf_sorted rfl))
  split
  · refine ⟨hspace.composed.append (.single ?_), true, ?_⟩
    · exact composed_branch (hnested _ _).voiced (hnested _ _).composed
    · rw [List.map_append, voiced_append, voiced_quiet hspace.kinds]
      rfl
  · exact ⟨hspace.composed, false, voiced_quiet hspace.kinds⟩

include hs

theorem escapeRule_layered : (escapeRule env s site).Layered := by
  unfold escapeRule
  split
  · exact .ite (hs.pushLeaf rfl _) trivial
  · trivial

include hnested in
theorem commandRule_layered {width : Nat} (hkind : HasBodies kind) : (commandRule env s site kind width).Layered := by
  unfold commandRule
  dsimp only
  refine .ite trivial ?_
  split
  · trivial
  rename_i head _
  have hhead : Each (Sorted Kind.isQuiet) (head.nodes env.source) := head_quiet head
  -- a command with something behind its head that its kind allows
  have hcommand : ∀ nodes, Each Composed nodes → kind.Arranges ((head.nodes env.source ++ nodes).map Node.kind) →
      Sorted Kind.isPhrase (.markup kind (head.nodes env.source ++ nodes)) := by
    intro nodes hnodes harranges
    refine ⟨composed_branch harranges (hhead.composed.append hnodes), ?_⟩
    rcases hkind with rfl | rfl
    · rfl
    · rfl
  refine .ite trivial (.ite trivial ?_)
  split
  · rename_i close _
    refine hs.push (hcommand [verbatimNode env.source head.stop close] (.single (verbatimNode_composed _ _ _)) ?_)
    rcases hkind with rfl | rfl
    · show IsBody (voiced _)
      rw [voiced_head]
      exact .verbatim
    · refine .inr ?_
      rw [voiced_head]
      rfl
  refine .ite ?_ (.ite trivial ?_)
  · exact State.Layered.openBody (s := (s.shift .introducer).pushWaiting _ _) (.command hkind hhead hs) head.stop
  split
  · rename_i hcolon
    obtain ⟨hcontent, line, hvoiced⟩ := lineContent_composed (s := s) hnested site.segment.stop (head.stop + 1)
    simp only [Bool.and_eq_true, beq_iff_eq] at hcolon
    obtain rfl : kind = .inlineComponent := hcolon.1.1
    refine hs.push (hcommand (leafOf env.source .colon head.stop (head.stop + 1) :: _)
      (hcontent.cons (composed_leaf _ _ _)) ?_)
    show IsBody (voiced _)
    rw [voiced_head, List.map_cons, voiced_cons_quiet rfl, hvoiced]
    have hbody := IsBody.composite line false
    rwa [if_neg Bool.false_ne_true, List.append_nil] at hbody
  · have hbare := hcommand [] .nil
    rw [List.append_nil] at hbare
    refine hs.push (hbare ?_)
    have hnone : voiced ((head.nodes env.source).map Node.kind) = [] := voiced_quiet hhead.kinds
    rcases hkind with rfl | rfl
    · show IsBody (voiced _)
      rw [hnone]
      exact .composite false false
    · refine .inl fun k hk => ?_
      rw [hnone] at hk
      exact absurd hk List.not_mem_nil

theorem referenceRule_layered : (referenceRule env s site).Layered := by
  unfold referenceRule
  split
  · trivial
  · rename_i head _
    have hhead : Each (Sorted Kind.isQuiet) (head.nodes env.source) := head_quiet head
    exact .ite trivial (hs.push ⟨composed_branch (voiced_quiet hhead.kinds) hhead.composed, rfl⟩)

include hnested in
theorem mathRule_layered : (mathRule env s site).Layered := by
  unfold mathRule
  split
  · refine .ite trivial ?_
    split
    · trivial
    · rename_i n _
      have hcontent : Composed (.markup .mathContent (env.nested ⟨s.place + 1, s.place + 1 + n⟩ .template).value) :=
        composed_branch (hnested _ _).voiced (hnested _ _).composed
      refine .ite trivial (hs.push ⟨composed_branch (.inr rfl) ?_, rfl⟩)
      exact ((Each.single (composed_leaf _ _ _)).cons hcontent).cons (composed_leaf _ _ _)
  · trivial

theorem codeRule_layered : (codeRule env s site).Layered := by
  unfold codeRule
  dsimp only
  split
  · exact hs.pushLeaf rfl _
  · rename_i n _
    generalize s.place + runLength (· == '\x60') site.rest = inside
    have hcode : Each (Sorted (· == .markup .codeText)) (if inside < inside + n - runLength (· == '\x60') site.rest
        then [leafOf env.source .codeText inside (inside + n - runLength (· == '\x60') site.rest)] else []) :=
      .optional (.single (leafOf_sorted rfl))
    refine hs.push ⟨composed_branch (fun k hk => ?_) (composed_marked hcode.composed), rfl⟩
    exact beq_iff_eq.mp (voiced_marked hcode rfl rfl k hk)

theorem resolve?_layered {accept : Opener → Bool} {stop : Nat} {s' : State}
    (hkind : kind = .emph ∨ kind = .strong ∨ kind = .strikethrough)
    (haccept : ∀ opener : Opener, accept opener = true → opener.isCommand = false ∧ opener.isBody = false)
    (h : resolve? env s accept kind stop = some s') : s'.Layered := by
  obtain ⟨⟨above, d, below⟩, hfound, rfl⟩ := Option.map_eq_some_iff.mp h
  obtain ⟨habove, hbelow⟩ := Markup.Layered.mark? hs haccept hfound
  have hcontent : Each (Sorted Kind.isPhrase) (settle env.source above) := settle_phrases habove
  have hnodes := hcontent.composed
  refine .phrase ?_ hbelow
  rcases hkind with rfl | rfl | rfl
  · exact ⟨composed_branch (voiced_marked hcontent rfl rfl) (composed_marked hnodes), rfl⟩
  · exact ⟨composed_branch (voiced_marked hcontent rfl rfl) (composed_marked hnodes), rfl⟩
  · exact ⟨composed_branch (voiced_marked hcontent rfl rfl) (composed_marked hnodes), rfl⟩

theorem emphasisRule_layered (mark : Char) : (emphasisRule env s site mark).Layered := by
  unfold emphasisRule
  dsimp only
  refine .ite (hs.pushLeaf rfl _) ?_
  split
  · rename_i s' hclosed
    split at hclosed
    · refine resolve?_layered hs ?_ isEmphasis_mark hclosed
      split
      · exact .inr (.inl rfl)
      · exact .inl rfl
    · exact absurd hclosed (by simp)
  · exact .ite (hs.openMark ⟨rfl, rfl⟩ _) (hs.pushLeaf rfl _)

theorem strikeRule_layered : (strikeRule env s site).Layered := by
  unfold strikeRule
  refine .ite trivial ?_
  dsimp only
  split
  · rename_i s' hclosed
    split at hclosed
    · exact resolve?_layered hs (.inr (.inr rfl)) isStrike_mark hclosed
    · exact absurd hclosed (by simp)
  · exact .ite (hs.openMark ⟨rfl, rfl⟩ _) trivial

theorem linkOpenRule_layered (image : Bool) : (linkOpenRule env s image).Layered := by
  have hopened : (s.openMark env.source (.link image) (s.place + if image then 2 else 1)).Layered :=
    hs.openMark ⟨rfl, rfl⟩ _
  show State.Layered (if s.hasRoom then _ else _)
  split
  · exact hopened
  · exact hopened

omit hs in
/-- A link or an image: a label between two marks, and a destination between two others. -/
theorem link_phrase {label url : List Node} (hkind : kind = .image ∨ kind = .link) (first second third last : Span)
    (hlabel : Each (Sorted Kind.isPhrase) label) (hurl : Each (Sorted Kind.isQuiet) url) :
    Sorted Kind.isPhrase (.markup kind (leafOf src .linkMark first.start first.stop :: label ++
      [leafOf src .linkMark second.start second.stop, leafOf src .linkMark third.start third.stop] ++ url ++
      [leafOf src .linkMark last.start last.stop])) := by
  have hmark : ∀ a b, Sorted Kind.isQuiet (leafOf src .linkMark a b) := fun _ _ => leafOf_sorted rfl
  have hrest : Each (Sorted Kind.isQuiet) (leafOf src .linkMark third.start third.stop ::
      (url ++ [leafOf src .linkMark last.start last.stop])) := (hurl.append (.single (hmark _ _))).cons (hmark _ _)
  have hnodes := (hlabel.composed.append (hrest.composed.cons (hmark second.start second.stop).composed)).cons
    (hmark first.start first.stop).composed
  have hsame : leafOf src .linkMark first.start first.stop :: label ++
      [leafOf src .linkMark second.start second.stop, leafOf src .linkMark third.start third.stop] ++ url ++
      [leafOf src .linkMark last.start last.stop] = leafOf src .linkMark first.start first.stop ::
        (label ++ leafOf src .linkMark second.start second.stop :: leafOf src .linkMark third.start third.stop ::
          (url ++ [leafOf src .linkMark last.start last.stop])) := by simp
  have hkinds : (leafOf src .linkMark first.start first.stop :: (label ++ leafOf src .linkMark second.start second.stop ::
      leafOf src .linkMark third.start third.stop :: (url ++ [leafOf src .linkMark last.start last.stop]))).map
        Node.kind = .markup .linkMark :: label.map Node.kind ++ .markup .linkMark ::
          (leafOf src .linkMark third.start third.stop :: (url ++ [leafOf src .linkMark last.start last.stop])).map
            Node.kind := by
    rw [List.map_cons, List.map_append, List.map_cons]
    rfl
  rw [hsame]
  rcases hkind with rfl | rfl
  · exact ⟨composed_branch ⟨_, _, hkinds, hlabel.kinds, hrest.kinds⟩ hnodes, rfl⟩
  · exact ⟨composed_branch ⟨_, _, hkinds, hlabel.kinds, hrest.kinds⟩ hnodes, rfl⟩

theorem linkCloseRule_layered : (linkCloseRule env s site).Layered := by
  unfold linkCloseRule
  dsimp only
  split
  · split
    · trivial
    split
    · trivial
    rename_i n _ _ above d below hfound
    obtain ⟨habove, hbelow⟩ := Markup.Layered.mark? hs isLink_mark hfound
    refine .phrase (link_phrase ?_ d.span ⟨s.place, s.place + 1⟩ ⟨s.place + 1, s.place + 2⟩
      ⟨s.place + 2 + n, s.place + 2 + n + 1⟩ (settle_phrases habove) (.optional (.single (leafOf_sorted rfl)))) hbelow
    split
    · exact .inl rfl
    · exact .inr rfl
  · trivial

theorem addressRule_layered : (addressRule env s site).Layered := by
  unfold addressRule
  split
  · trivial
  · refine hs.push ⟨composed_branch rfl ?_, rfl⟩
    exact ((Each.single (composed_leaf _ _ _)).cons (composed_leaf _ _ _)).cons (composed_leaf _ _ _)

theorem dashRule_layered : (dashRule env s site).Layered :=
  .ite (hs.pushLeaf rfl _) trivial

theorem commentRule_layered : (commentRule env s site).Layered :=
  .ite (hs.pushLeaf rfl _) trivial

omit hs in
/-- A body of phrases, whether or not it has its closing brace. -/
theorem block_sorted {a b : Nat} {back : List Node} (h : Each (Sorted Kind.isPhrase) nodes)
    (hback : Each (Sorted (· == .markup .rightBrace)) back) :
    Sorted (· == .markup .contentBlock) (.markup .contentBlock (leafOf src .leftBrace a b :: nodes ++ back)) := by
  refine ⟨composed_branch (fun k hk => ?_) ((h.composed.append hback.composed).cons (composed_leaf _ _ _)), rfl⟩
  rw [List.map_append, List.mem_append] at hk
  rcases hk with hk | hk
  · rcases List.mem_cons.mp hk with rfl | hk
    · exact .inr (.inl rfl)
    · exact .inl (h.kinds k hk)
  · exact .inr (.inr (beq_iff_eq.mp (hback.kinds k hk)))

/-- A body is closed, and then another one is opened or the command is finished. -/
theorem closeBodyRule_layered : (closeBodyRule env s site).Layered := by
  unfold closeBodyRule
  dsimp only
  refine .ite trivial ?_
  split
  · trivial
  rename_i above d below hfound
  obtain ⟨habove, hbelow⟩ := Markup.Layered.body? hs hfound
  have hblock : Markup.Layered true (.done (.markup .contentBlock (leafOf env.source .leftBrace d.span.start
      d.span.stop :: settle env.source above ++ [leafOf env.source .rightBrace s.place (s.place + 1)])) :: below) :=
    .block (block_sorted (settle_phrases habove) (.single (leafOf_sorted rfl))) hbelow
  split
  · exact State.Layered.finishCommand (s := State.jump (State.shift { s with parts := _ } _) _) hblock
  · exact State.Layered.openBody (s := State.jump (State.shift { s with parts := _ } _) _) hblock _
  · exact State.Layered.finishCommand (s := State.jump (State.shift { s with parts := _ } _) _) hblock

include hnested in
/-- **Every rule keeps the layers**, where all rules are active. -/
theorem fullRule_layered (c : Char) : (fullRule env s site c).Layered := by
  unfold fullRule
  refine .ite (escapeRule_layered hs) (.ite (commandRule_layered hnested hs (.inl rfl)) ?_)
  refine .ite (.ite (commandRule_layered hnested hs (.inl rfl)) trivial)
    (.ite (commandRule_layered hnested hs (.inr rfl)) ?_)
  refine .ite (referenceRule_layered hs) (.ite (mathRule_layered hnested hs) (.ite (codeRule_layered hs) ?_))
  refine .ite (emphasisRule_layered hs c) (.ite (strikeRule_layered hs) (.ite (linkOpenRule_layered hs false) ?_))
  refine .ite (.ite (linkOpenRule_layered hs true) trivial) (.ite (linkCloseRule_layered hs) ?_)
  refine .ite (addressRule_layered hs) (.ite (dashRule_layered hs) (.ite (commentRule_layered hs) ?_))
  exact .ite (closeBodyRule_layered hs) trivial

include hnested in
/-- **Every rule keeps the layers**, in a formula. -/
theorem templateRule_layered (c : Char) : (templateRule env s site c).Layered := by
  unfold templateRule
  refine .ite (.ite (hs.pushLeaf rfl _) trivial) (.ite (commandRule_layered hnested hs (.inr rfl)) ?_)
  exact .ite (closeBodyRule_layered hs) trivial

omit hs in
theorem openBraces_layered (n : Nat) {s : State} (hs : s.Layered) : (openBraces n s).Layered := by
  induction n generalizing s with
  | zero => exact hs
  | succ n ih => exact ih hs

theorem plainText_layered (c : Char) : (plainText env s site c).Layered := by
  unfold plainText
  generalize plainRun s.nesting.inHead s.nesting.inBody 0 site.rest = run
  obtain ⟨n, opened⟩ := run
  dsimp only
  split
  · exact (openBraces_layered opened hs).pushLeaf rfl _
  · exact State.Layered.pushLeaf (s := s.shift (literalEvent c)) hs rfl _

omit hs in
theorem Verdict.Layered.step {v : Verdict} {c : Prop} [Decidable c] {plain noted : State} (hplain : plain.Layered)
    (hnoted : noted.Layered) : v.Layered → State.Layered (match v with
      | .claimed s => if c then s else s.shift .other
      | .declined => plain
      | .tooDeep => noted) := by
  intro hv
  cases v with
  | claimed s =>
      dsimp only
      split
      · exact hv
      · exact hv
  | declined => exact hplain
  | tooDeep => exact hnoted

include hnested in
/-- **Every step keeps the layers.** -/
theorem step_layered (segment : Span) (later : List Span) : (step env s segment later).Layered := by
  unfold step
  split
  · unfold nextSegment
    split
    · exact hs
    · show Markup.Layered false (State.parts (if _ then _ else _))
      split
      · exact .phrase (leafOf_sorted rfl) hs
      · exact hs
  split
  · exact hs.pushLeaf rfl _
  dsimp only
  split
  · exact hs
  rename_i c _ _
  have hnoted : (plainText env (s.note (some s.place)) ⟨segment, env.source.slice s.place segment.stop⟩ c).Layered :=
    plainText_layered (s := s.note (some s.place)) hs c
  refine Verdict.Layered.step (c := (c == '}' || c == '{') = true) (plainText_layered hs c) hnoted ?_
  split
  · exact fullRule_layered hnested hs c
  · exact templateRule_layered hnested hs c

include hnested in
theorem readRegion_layered (fuel : Nat) : (readRegion env fuel s).Layered := by
  induction fuel generalizing s with
  | zero => exact hs
  | succ fuel ih =>
      unfold readRegion
      split
      · exact hs
      · exact ih (step_layered hnested hs _ _)

/-- Closing the commands left open keeps the layers, too. -/
theorem closeCommands_layered (fuel : Nat) : (closeCommands env fuel s).Layered := by
  induction fuel generalizing s with
  | zero => exact hs
  | succ fuel ih =>
      rw [closeCommands_succ]
      refine ih ?_
      unfold closeCommand
      cases hfound : lastBody? s.parts with
      | none => exact hs
      | some found =>
          obtain ⟨above, d, below⟩ := found
          obtain ⟨habove, hbelow⟩ := Markup.Layered.body? hs hfound
          dsimp only
          split
          · have hblock : Sorted (· == .markup .contentBlock) (.markup .contentBlock
                (leafOf env.source .leftBrace d.span.start d.span.stop :: settle env.source above ++ [])) :=
              block_sorted (settle_phrases habove) .nil
            rw [List.append_nil] at hblock
            exact State.Layered.finishCommand (s := { s with parts := _ }) (.block hblock hbelow)
          · exact hs.degradeCommand

end Rules

/-! ## Regions -/

theorem readInline_composed {nested : Span → Mode → Limited (List Node)}
    (hnested : ∀ inner mode, Each (Sorted Kind.isPhrase) (nested inner mode).value) (segments : List Span)
    (mode : Mode) : Each (Sorted Kind.isPhrase) (readInline src nested segments mode).value := by
  unfold readInline
  dsimp only
  generalize henv : Env.mk src mode ((segments.getLast?.map Span.stop).getD 0) _ nested = env
  have hphrases : env.NestsPhrases := by
    rw [← henv]
    exact hnested
  have hread := readRegion_layered hphrases (s := .start segments) .nil (regionSteps segments)
  have hpaired : (readRegion env (regionSteps segments) (.start segments)).Paired := readRegion_paired (.start segments) _
  generalize readRegion env (regionSteps segments) (.start segments) = s at hread hpaired
  -- no command is open any more, so no body stands on the stack by itself
  exact settle_phrases ((closeCommands_layered hread s.parts.length).free (closeCommands_root env hpaired).1)

/-- **The nodes of a region are phrases**, however deep regions may be inside each other. -/
theorem inlineNodes_composed (src : Source) (levels : Nat) (segments : List Span) (mode : Mode) :
    Each (Sorted Kind.isPhrase) (inlineNodes src levels segments mode).value := by
  induction levels generalizing segments mode with
  | zero => exact readInline_composed (fun _ _ => .single (leafOf_sorted rfl)) segments mode
  | succ levels ih => exact readInline_composed (fun inner mode => ih [inner] mode) segments mode

end ComponentMarkup.Markup
