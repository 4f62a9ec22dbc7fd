import ComponentMarkup.Proofs.Markup.Moves

/-!
# Texts that touch

Text may be taken from a region in larger or smaller pieces.  Pieces that touch become one text in the end, so how
text was cut makes no difference: not to what is found among the parts, not to what parts become, and not to what
any rule makes of a place.  Two states are alike if they stand at the same place, have the same frames around them,
and have the same parts once texts that touch are joined.

* `fuse` — parts with texts that touch joined;
* `findWaiting?_fuse`, `settle_fuse` — what is found among parts, and what they become, is the same;
* `fullRule_alike`, `templateRule_alike` — every rule makes the same of states that are alike;
* `closeCommands_alike` — and so does closing the commands left open.
-/

namespace ComponentMarkup.Markup

open ComponentMarkup.Text ComponentMarkup.Tree

/-! ## Parts with texts joined -/

/-- A text among the parts. -/
abbrev textPart (t : String) (s : Span) : Part :=
  .done (.leaf (.markup .text) t s)

/-- Puts a part above others, joining it with the last of them if both are text and touch. -/
def attach (part : Part) (parts : List Part) : List Part :=
  match part, parts with
  | .done (.leaf (.markup .text) t s), .done (.leaf (.markup .text) t' s') :: rest =>
    if s'.stop = s.start then textPart (t' ++ t) ⟨s'.start, s.stop⟩ :: rest else part :: parts
  | _, _ => part :: parts

/-- Parts, last first, with texts that touch joined. -/
def fuse (parts : List Part) : List Part :=
  parts.foldr attach []

variable {part : Part} {parts parts' above below rest : List Part} {t t' : String} {s s' : Span}

theorem attach_touching (h : s'.stop = s.start) :
    attach (textPart t s) (textPart t' s' :: rest) = textPart (t' ++ t) ⟨s'.start, s.stop⟩ :: rest :=
  if_pos h

/-- A part that is put above others is joined with a text, or stays what it is. -/
theorem attach_cases (part : Part) (parts : List Part) : attach part parts = part :: parts ∨
    ∃ t s t' s' rest, part = textPart t s ∧ parts = textPart t' s' :: rest ∧ s'.stop = s.start := by
  unfold attach
  split
  · split
    · rename_i t s t' s' rest htouch
      exact .inr ⟨t, s, t', s', rest, rfl, rfl, htouch⟩
    · exact .inl rfl
  · exact .inl rfl

theorem attach_nil (part : Part) : attach part [] = [part] := by
  rcases attach_cases part [] with hattach | ⟨_, _, _, _, _, -, hparts, -⟩
  · exact hattach
  · exact absurd hparts (List.cons_ne_nil _ _).symm

/-- A part that is no text is joined with nothing above it. -/
theorem attach_apart (h : ∀ t s, part ≠ textPart t s) (p : Part) (parts : List Part) :
    attach p (part :: parts) = p :: part :: parts := by
  rcases attach_cases p (part :: parts) with hattach | ⟨_, _, t', s', _, -, hparts, -⟩
  · exact hattach
  · exact absurd (List.cons.inj hparts).1 (h t' s')

theorem attach_away (h : s'.stop ≠ s.start) : attach (textPart t s) (textPart t' s' :: rest) =
    textPart t s :: textPart t' s' :: rest :=
  if_neg h

/-- It makes no difference which of three texts that touch are joined first. -/
theorem attach_attach (h : s'.stop = s.start) (parts : List Part) :
    attach (textPart t s) (attach (textPart t' s') parts) = attach (textPart (t' ++ t) ⟨s'.start, s.stop⟩) parts := by
  cases parts with
  | nil => exact attach_touching h
  | cons part parts =>
      by_cases htext : ∃ t s, part = textPart t s
      · obtain ⟨t₀, s₀, rfl⟩ := htext
        by_cases htouch : s₀.stop = s'.start
        · have hlong : (⟨s₀.start, s'.stop⟩ : Span).stop = s.start := h
          have hall : s₀.stop = (⟨s'.start, s.stop⟩ : Span).start := htouch
          rw [attach_touching htouch, attach_touching hlong, attach_touching hall, String.append_assoc]
        · have haway : s₀.stop ≠ (⟨s'.start, s.stop⟩ : Span).start := htouch
          rw [attach_away htouch, attach_touching h, attach_away haway]
      · have hother : ∀ t s, part ≠ textPart t s := fun t s heq => htext ⟨t, s, heq⟩
        rw [attach_apart hother, attach_touching h, attach_apart hother]

theorem fuse_cons (part : Part) (parts : List Part) : fuse (part :: parts) = attach part (fuse parts) :=
  rfl

/-- Parts that are put above others may be joined before. -/
theorem foldr_attach (part : Part) (parts below : List Part) :
    (attach part parts).foldr attach below = attach part (parts.foldr attach below) := by
  rcases attach_cases part parts with hattach | ⟨t, s, t', s', rest, rfl, rfl, htouch⟩
  · rw [hattach, List.foldr_cons]
  · rw [attach_touching htouch, List.foldr_cons, List.foldr_cons, attach_attach htouch]

theorem foldr_attach_fuse (parts below : List Part) : (fuse parts).foldr attach below = parts.foldr attach below := by
  induction parts with
  | nil => rfl
  | cons part parts ih => rw [fuse_cons, foldr_attach, ih, List.foldr_cons]

theorem fuse_append (above below : List Part) : fuse (above ++ below) = (fuse above).foldr attach (fuse below) := by
  rw [foldr_attach_fuse, fuse, List.foldr_append]
  rfl

/-- Parts above others, both with their texts joined in the same way. -/
theorem fuse_append_congr {above' below' : List Part} (habove : fuse above = fuse above')
    (hbelow : fuse below = fuse below') : fuse (above ++ below) = fuse (above' ++ below') := by
  rw [fuse_append, habove, hbelow, ← fuse_append]

theorem fuse_cons_congr (part : Part) (h : fuse parts = fuse parts') :
    fuse (part :: parts) = fuse (part :: parts') := by
  rw [fuse_cons, h, fuse_cons]

/-- Texts that are kept may be joined before other parts are replaced. -/
theorem fuse_flatMap {replace : Part → List Part} (htext : ∀ t s, replace (textPart t s) = [textPart t s])
    (parts : List Part) : fuse ((fuse parts).flatMap replace) = fuse (parts.flatMap replace) := by
  induction parts with
  | nil => rfl
  | cons part parts ih =>
      rw [List.flatMap_cons, fuse_append, ← ih, ← fuse_append, ← List.flatMap_cons, fuse_cons]
      rcases attach_cases part (fuse parts) with hattach | ⟨t, s, t', s', rest, rfl, hrest, htouch⟩
      · rw [hattach]
      · rw [hrest, attach_touching htouch]
        simp only [List.flatMap_cons, htext, List.singleton_append, fuse_cons]
        exact (attach_attach htouch _).symm

/-! ## What is found among parts, and what they become -/

/-- Two nodes are put above others as one text or as they are. -/
theorem attach_nodes (n m : Node) :
    ∃ nodes : List Node, ∀ rest, attach (.done n) (.done m :: rest) = nodes.map .done ++ rest := by
  by_cases htexts : ∃ t s t' s', Part.done n = textPart t s ∧ Part.done m = textPart t' s' ∧ s'.stop = s.start
  · obtain ⟨t, s, t', s', hn, hm, htouch⟩ := htexts
    refine ⟨[.leaf (.markup .text) (t' ++ t) ⟨s'.start, s.stop⟩], fun rest => ?_⟩
    rw [hn, hm]
    exact attach_touching htouch
  · refine ⟨[n, m], fun rest => ?_⟩
    rcases attach_cases (.done n) (.done m :: rest) with hattach | ⟨t, s, t', s', _, hn, hm, htouch⟩
    · exact hattach
    · exact absurd ⟨t, s, t', s', hn, (List.cons.inj hm).1, htouch⟩ htexts

/-- A search passes nodes by. -/
theorem findWaiting?_nodes (accept blocks : Opener → Bool) (nodes : List Node) (parts : List Part) :
    findWaiting? accept blocks (nodes.map .done ++ parts) =
      (findWaiting? accept blocks parts).map fun (above, d, below) => (nodes.map .done ++ above, d, below) := by
  induction nodes with
  | nil => exact (congrFun Option.map_id _).symm
  | cons node nodes ih =>
      rw [List.map_cons, List.cons_append, findWaiting?, ih, Option.map_map]
      rfl

/-- A search passes a node by, whether it is joined with others or not. -/
theorem findWaiting?_attach (accept blocks : Opener → Bool) (node : Node) (parts : List Part) :
    findWaiting? accept blocks (attach (.done node) parts) =
      (findWaiting? accept blocks parts).map fun found => (attach (.done node) found.1, found.2) := by
  cases parts with
  | nil => rw [attach_nil]; rfl
  | cons part parts =>
      cases part with
      | waiting d =>
          have hattach : ∀ parts, attach (.done node) (.waiting d :: parts) = .done node :: .waiting d :: parts :=
            attach_apart (fun t s => Part.noConfusion) (.done node)
          rw [hattach, findWaiting?, findWaiting?]
          split
          · exact congrArg (fun a => some (a, d, parts)) (attach_nil _).symm
          · split
            · rfl
            · rw [Option.map_map, Option.map_map]
              exact congrArg (Option.map · _) (funext fun found =>
                congrArg (fun above => (above, found.2)) (hattach found.1).symm)
      | done m =>
          obtain ⟨nodes, hnodes⟩ := attach_nodes node m
          rw [hnodes, findWaiting?_nodes, findWaiting?, Option.map_map]
          exact congrArg (Option.map · _) (funext fun found =>
            congrArg (fun above => (above, found.2)) (hnodes found.1).symm)

/-- What is found among parts whose texts are joined. -/
theorem findWaiting?_fuse (accept blocks : Opener → Bool) (parts : List Part) :
    findWaiting? accept blocks (fuse parts) =
      (findWaiting? accept blocks parts).map fun (above, d, below) => (fuse above, d, fuse below) := by
  induction parts with
  | nil => rfl
  | cons part parts ih =>
      rw [fuse_cons]
      cases part with
      | done node =>
          rw [findWaiting?_attach, ih, findWaiting?, Option.map_map, Option.map_map]
          rfl
      | waiting d =>
          show findWaiting? accept blocks (.waiting d :: fuse parts) = _
          rw [findWaiting?, findWaiting?]
          split
          · rfl
          · split
            · rfl
            · rw [ih, Option.map_map, Option.map_map]
              rfl

/-- The same is found among parts that differ in how text is cut. -/
theorem findWaiting?_alike {accept blocks : Opener → Bool} (h : fuse parts = fuse parts') :
    (findWaiting? accept blocks parts = none ∧ findWaiting? accept blocks parts' = none) ∨
    ∃ above d below above' below', findWaiting? accept blocks parts = some (above, d, below) ∧
      findWaiting? accept blocks parts' = some (above', d, below') ∧ fuse above = fuse above' ∧
      fuse below = fuse below' := by
  have hfound := congrArg (findWaiting? accept blocks) h
  rw [findWaiting?_fuse, findWaiting?_fuse] at hfound
  cases hleft : findWaiting? accept blocks parts with
  | none =>
      rw [hleft] at hfound
      exact .inl ⟨rfl, Option.map_eq_none_iff.mp hfound.symm⟩
  | some left =>
      obtain ⟨above, d, below⟩ := left
      rw [hleft] at hfound
      obtain ⟨⟨above', d', below'⟩, hright, heq⟩ := Option.map_eq_some_iff.mp hfound.symm
      obtain ⟨habove, rfl, hbelow⟩ : fuse above' = fuse above ∧ d' = d ∧ fuse below' = fuse below := by simpa using heq
      exact .inr ⟨above, d', below, above', below', rfl, hright, habove.symm, hbelow.symm⟩

/-- A text that comes to stand before others joins the first of them if it is a text that touches it. -/
theorem joinText_cases (node : Node) (nodes : List Node) : joinText node nodes = node :: nodes ∨
    ∃ t s t' s' rest, node = .leaf (.markup .text) t s ∧ nodes = .leaf (.markup .text) t' s' :: rest ∧
      s.stop = s'.start := by
  unfold joinText
  split
  · split
    · rename_i t s t' s' rest htouch
      exact .inr ⟨t, s, t', s', rest, rfl, rfl, htouch⟩
    · exact .inl rfl
  · exact .inl rfl

theorem joinText_touching {nodes : List Node} (h : s.stop = s'.start) :
    joinText (.leaf (.markup .text) t s) (.leaf (.markup .text) t' s' :: nodes) =
      .leaf (.markup .text) (t ++ t') ⟨s.start, s'.stop⟩ :: nodes :=
  if_pos h

/-- It makes no difference which of three texts that touch become one node first. -/
theorem joinText_joinText (h : s'.stop = s.start) (nodes : List Node) :
    joinText (.leaf (.markup .text) t' s') (joinText (.leaf (.markup .text) t s) nodes) =
      joinText (.leaf (.markup .text) (t' ++ t) ⟨s'.start, s.stop⟩) nodes := by
  rcases joinText_cases (.leaf (.markup .text) t s) nodes with hjoin | ⟨t, s, t₀, s₀, rest, htext, rfl, htouch⟩
  · rw [hjoin, joinText_touching h]
    rcases joinText_cases (.leaf (.markup .text) (t' ++ t) ⟨s'.start, s.stop⟩) nodes with
      hlong | ⟨_, _, t₀, s₀, rest, htext, rfl, htouch⟩
    · exact hlong.symm
    · cases htext
      have hshort : s.stop = s₀.start := htouch
      rw [joinText_touching hshort] at hjoin
      exact absurd (congrArg List.length hjoin) (by simp)
  · cases htext
    have hlong : s'.stop = (⟨s.start, s₀.stop⟩ : Span).start := h
    have hall : (⟨s'.start, s.stop⟩ : Span).stop = s₀.start := htouch
    rw [joinText_touching htouch, joinText_touching hlong, joinText_touching hall, String.append_assoc]

/-- Parts become nodes one after the other. -/
theorem settle_eq (src : Source) (parts : List Part) :
    settle src parts = parts.foldl (fun nodes part => joinText (part.node src) nodes) [] := by
  rw [settle, List.foldr_map, List.foldr_reverse]

/-- Parts become the same nodes when their texts are joined before. -/
theorem settle_fuse (src : Source) (parts : List Part) : settle src (fuse parts) = settle src parts := by
  rw [settle_eq, settle_eq]
  generalize ([] : List Node) = nodes
  induction parts generalizing nodes with
  | nil => rfl
  | cons part parts ih =>
      rw [List.foldl_cons, ← ih, fuse_cons]
      rcases attach_cases part (fuse parts) with hattach | ⟨t, s, t', s', rest, rfl, hrest, htouch⟩
      · rw [hattach, List.foldl_cons]
      · rw [hrest, attach_touching htouch, List.foldl_cons, List.foldl_cons]
        exact congrArg (rest.foldl _) (joinText_joinText htouch nodes).symm

theorem settle_congr (src : Source) (h : fuse parts = fuse parts') : settle src parts = settle src parts' := by
  rw [← settle_fuse, h, settle_fuse]

/-- What takes no notice of finished nodes takes none of how text is cut. -/
theorem fuse_passed {α : Type} {view : List Part → α} (hdone : ∀ node parts, view (.done node :: parts) = view parts)
    (hwaiting : ∀ d parts parts', view parts = view parts' → view (.waiting d :: parts) = view (.waiting d :: parts'))
    (parts : List Part) : view (fuse parts) = view parts := by
  induction parts with
  | nil => rfl
  | cons part parts ih =>
      rw [fuse_cons]
      cases part with
      | waiting d => exact hwaiting d _ _ ih
      | done node =>
          rw [hdone, ← ih]
          rcases attach_cases (.done node) (fuse parts) with hattach | ⟨t, s, t', s', rest, hnode, hrest, htouch⟩
          · rw [hattach, hdone]
          · rw [hnode, hrest, attach_touching htouch, hdone, hdone]

/-- The same commands wait. -/
theorem commandParts_fuse (parts : List Part) : commandParts (fuse parts) = commandParts parts :=
  fuse_passed commandParts_done (fun d parts parts' h => by
    rw [commandParts, commandParts, List.filterMap_cons, List.filterMap_cons, ← commandParts, ← commandParts, h]) parts

/-- As many delimiters wait. -/
theorem nextLevel_fuse (parts : List Part) : nextLevel (fuse parts) = nextLevel parts :=
  fuse_passed (fun _ _ => rfl) (fun _ _ _ _ => rfl) parts

/-! ## Frames -/

/-- What the frames stand for after a token. -/
def shiftForms (forms : List FrameForm) : Event → List FrameForm
  | .introducer => .head :: forms
  | .opening b =>
    match forms with
    | .head :: _ => .body b {} :: forms
    | .body opener p :: outside => .body opener (p.set b (p.get b + 1)) :: outside
    | [] => []
  | .closing b =>
    match forms with
    | .body opener p :: outside =>
      if 0 < p.get b then .body opener (p.set b (p.get b - 1)) :: outside
      else if b = opener then outside
      else forms
    | _ => forms
  | .newline => forms
  | .other => forms

/-- What the frames outside the innermost command stand for. -/
def outsideForms : List FrameForm → List FrameForm
  | [] => []
  | form :: forms => if form = .head then forms else outsideForms forms

theorem form?_eq (n : Nesting) : n.form? = n.forms.head? :=
  List.head?_map.symm

theorem forms_shift (n : Nesting) (event : Event) : (n.shift event).forms = shiftForms n.forms event := by
  obtain ⟨frames, lineStart, supply⟩ := n
  cases event with
  | introducer => rfl
  | opening b =>
      rcases frames with _ | ⟨⟨stamp, _ | ⟨opener, p⟩⟩, frames⟩
      · rfl
      · rfl
      · rfl
  | closing b =>
      rcases frames with _ | ⟨⟨stamp, _ | ⟨opener, p⟩⟩, frames⟩
      · rfl
      · rfl
      · have hform : Nesting.form? ⟨⟨stamp, .body opener p⟩ :: frames, lineStart, supply⟩ = some (.body opener p) := rfl
        show _ = if 0 < p.get b then .body opener (p.set b (p.get b - 1)) :: frames.map Frame.form
          else if b = opener then frames.map Frame.form else .body opener p :: frames.map Frame.form
        rw [Nesting.shift, Nesting.shiftFrames, hform]
        dsimp only
        by_cases hopen : 0 < p.get b
        · rw [if_pos hopen, if_pos hopen]
          rfl
        · rw [if_neg hopen, if_neg hopen]
          by_cases hopener : b = opener
          · rw [if_pos hopener, if_pos hopener]
            rfl
          · rw [if_neg hopener, if_neg hopener]
            rfl
  | newline => rfl
  | other => rfl

theorem forms_completeCommand (n : Nesting) : n.completeCommand.forms = outsideForms n.forms := by
  obtain ⟨frames, lineStart, supply⟩ := n
  show (Nesting.outsideCommand frames).map Frame.form = outsideForms (frames.map Frame.form)
  induction frames with
  | nil => rfl
  | cons frame frames ih =>
      rw [Nesting.outsideCommand, List.map_cons, outsideForms]
      split
      · rfl
      · exact ih

theorem inside_eq (n : Nesting) (b : Bracket) : n.inside b = n.forms.any fun form =>
    match form with
    | .body opener _ => opener = b
    | .head => false := by
  rw [Nesting.forms, List.any_map]
  rfl

/-! ## States -/

/-- States that differ only in how text is cut, and in the stamps of their frames. -/
structure State.Alike (s t : State) : Prop where
  segments : s.segments = t.segments
  place : s.place = t.place
  forms : s.nesting.forms = t.nesting.forms
  parts : fuse s.parts = fuse t.parts
  overflow : s.overflow = t.overflow

namespace State.Alike

variable {u v : State} {src : Source}

theorem refl (s : State) : s.Alike s :=
  ⟨rfl, rfl, rfl, rfl, rfl⟩

/-- Other parts take the place of those that there were. -/
theorem withParts (h : u.Alike v) {parts parts' : List Part} (hparts : fuse parts = fuse parts') :
    ({ u with parts := parts } : State).Alike { v with parts := parts' } :=
  ⟨h.segments, h.place, h.forms, hparts, h.overflow⟩

theorem push (h : u.Alike v) (node : Node) : (u.push node).Alike (v.push node) :=
  h.withParts (fuse_cons_congr _ h.parts)

theorem jump (h : u.Alike v) (place : Nat) : (u.jump place).Alike (v.jump place) :=
  ⟨h.segments, rfl, h.forms, h.parts, h.overflow⟩

theorem jumpAcross (h : u.Alike v) (place : Nat) : (u.jumpAcross place).Alike (v.jumpAcross place) :=
  ⟨congrArg (State.jumpAcross.skip place) h.segments, rfl, h.forms, h.parts, h.overflow⟩

theorem note (h : u.Alike v) (place : Option Nat) : (u.note place).Alike (v.note place) :=
  ⟨h.segments, h.place, h.forms, h.parts, congrArg (Limited.first · place) h.overflow⟩

theorem shift (h : u.Alike v) (event : Event) : (u.shift event).Alike (v.shift event) := by
  refine ⟨h.segments, h.place, ?_, h.parts, h.overflow⟩
  rw [State.shift, State.shift, forms_shift, forms_shift, h.forms]

theorem completeCommand (h : u.Alike v) : u.completeCommand.Alike v.completeCommand := by
  refine ⟨h.segments, h.place, ?_, h.parts, h.overflow⟩
  rw [State.completeCommand, State.completeCommand, forms_completeCommand, forms_completeCommand, h.forms]

theorem pushLeaf (h : u.Alike v) (kind : MarkupKind) (stop : Nat) :
    (u.pushLeaf src kind stop).Alike (v.pushLeaf src kind stop) := by
  rw [State.pushLeaf, h.place]
  exact (h.push _).jump stop

theorem level (h : u.Alike v) : u.level = v.level := by
  rw [u.level_eq, v.level_eq, ← nextLevel_fuse, h.parts, nextLevel_fuse]

theorem pushWaiting (h : u.Alike v) (opener : Opener) (span : Span) :
    (u.pushWaiting opener span).Alike (v.pushWaiting opener span) := by
  rw [State.pushWaiting, h.level]
  exact h.withParts (fuse_cons_congr _ h.parts)

theorem hasRoom (h : u.Alike v) : u.hasRoom = v.hasRoom := by
  rw [State.hasRoom, h.level, State.hasRoom]

theorem openMark (h : u.Alike v) (opener : Opener) (stop : Nat) :
    (u.openMark src opener stop).Alike (v.openMark src opener stop) := by
  rw [State.openMark, State.openMark, h.hasRoom, h.place]
  split
  · exact (h.pushWaiting _ _).jump _
  · exact (h.note _).pushLeaf _ _

theorem openBody (h : u.Alike v) (brace : Nat) : (u.openBody brace).Alike (v.openBody brace) :=
  ((h.shift _).pushWaiting _ _).jump _

/-- The head and the bodies of a command become the same node. -/
theorem finishCommand (h : u.Alike v) : (u.finishCommand src).Alike (v.finishCommand src) := by
  unfold State.finishCommand lastCommand?
  rcases findWaiting?_alike h.parts with ⟨hu, hv⟩ | ⟨above, d, below, above', below', hu, hv, habove, hbelow⟩
  · rw [hu, hv]
    exact h
  · rw [hu, hv]
    obtain ⟨opener, span, level⟩ := d
    cases opener with
    | command kind head =>
        dsimp only
        rw [settle_congr src habove]
        exact (h.withParts (fuse_cons_congr _ hbelow)).completeCommand
    | _ => exact h

/-- The head and the bodies of a command become text in the same way. -/
theorem degradeCommand (h : u.Alike v) : (u.degradeCommand src).Alike (v.degradeCommand src) := by
  unfold State.degradeCommand lastBody? lastCommand?
  rcases findWaiting?_alike h.parts with ⟨hu, hv⟩ | ⟨above, body, below, above', below', hu, hv, habove, hbelow⟩
  · rw [hu, hv]
    exact h
  · rw [hu, hv]
    dsimp only
    rcases findWaiting?_alike hbelow with ⟨hu, hv⟩ | ⟨between, command, rest, between', rest', hu, hv, hbetween, hrest⟩
    · rw [hu, hv]
      exact h
    · rw [hu, hv]
      refine (h.withParts (fuse_append_congr (fuse_append_congr habove (fuse_cons_congr _ ?_))
        (fuse_cons_congr _ hrest))).completeCommand
      rw [← fuse_flatMap (fun _ _ => rfl), hbetween, fuse_flatMap fun _ _ => rfl]

end State.Alike

/-! ## Rules -/

/-- Verdicts that differ only in how text is cut. -/
inductive Verdict.Alike : Verdict → Verdict → Prop where
  | claimed {u v : State} (states : u.Alike v) : Verdict.Alike (.claimed u) (.claimed v)
  | declined : Verdict.Alike .declined .declined
  | tooDeep : Verdict.Alike .tooDeep .tooDeep

theorem Verdict.Alike.ite {c : Prop} [Decidable c] {v w v' w' : Verdict} (hv : v.Alike v') (hw : w.Alike w') :
    (if c then v else w).Alike (if c then v' else w') := by
  split
  · exact hv
  · exact hw

section Rules

variable {env : Env} {site : Site} {u v : State} (h : u.Alike v)

include h

theorem escapeRule_alike : (escapeRule env u site).Alike (escapeRule env v site) := by
  unfold escapeRule
  rw [h.place]
  split
  · exact .ite (.claimed (h.pushLeaf _ _)) .declined
  · exact .declined

theorem lineContent_alike (limit start : Nat) : lineContent env u limit start = lineContent env v limit start := by
  unfold lineContent
  rw [inside_eq, h.forms, ← inside_eq]

theorem depth_alike : u.nesting.depth = v.nesting.depth := by
  have hlength := congrArg List.length h.forms
  rwa [Nesting.forms, Nesting.forms, List.length_map, List.length_map] at hlength

theorem commandRule_alike (kind : MarkupKind) (width : Nat) :
    (commandRule env u site kind width).Alike (commandRule env v site kind width) := by
  unfold commandRule
  dsimp only
  rw [h.place, depth_alike h]
  refine .ite .declined ?_
  split
  · exact .declined
  refine .ite .declined (.ite .tooDeep ?_)
  split
  · exact .claimed ((h.push _).jumpAcross _)
  refine .ite (.claimed (((h.shift _).pushWaiting _ _).openBody _)) (.ite .declined (.ite ?_ ?_))
  · rw [lineContent_alike h]
    exact .claimed (((((h.note _).jump _).shift _).completeCommand).push _)
  · exact .claimed ((((h.jump _).shift _).completeCommand).push _)

theorem referenceRule_alike : (referenceRule env u site).Alike (referenceRule env v site) := by
  unfold referenceRule
  rw [h.place]
  split
  · exact .declined
  · exact .ite .declined (.claimed ((((h.shift _).completeCommand).push _).jump _))

theorem mathRule_alike : (mathRule env u site).Alike (mathRule env v site) := by
  unfold mathRule
  dsimp only
  rw [h.place]
  split
  · refine .ite .declined ?_
    split
    · exact .declined
    · exact .ite .declined (.claimed (((h.note _).push _).jump _))
  · exact .declined

theorem codeRule_alike : (codeRule env u site).Alike (codeRule env v site) := by
  unfold codeRule
  dsimp only
  rw [h.place]
  split
  · exact .claimed (h.pushLeaf _ _)
  · exact .claimed ((h.push _).jump _)

theorem flanks_alike (mark : Char) (stop : Nat) : flanks env u site mark stop = flanks env v site mark stop := by
  rw [flanks, flanks, h.place]

/-- A mark finds the same partner. -/
theorem resolve?_alike (accept : Opener → Bool) (kind : MarkupKind) (stop : Nat) :
    (resolve? env u accept kind stop = none ∧ resolve? env v accept kind stop = none) ∨
    ∃ u' v', resolve? env u accept kind stop = some u' ∧ resolve? env v accept kind stop = some v' ∧ u'.Alike v' := by
  unfold resolve?
  rcases findWaiting?_alike h.parts with ⟨hu, hv⟩ | ⟨above, d, below, above', below', hu, hv, habove, hbelow⟩
  · rw [hu, hv]
    exact .inl ⟨rfl, rfl⟩
  · rw [hu, hv]
    refine .inr ⟨_, _, rfl, rfl, ?_⟩
    dsimp only
    rw [settle_congr env.source habove, h.place]
    exact (h.withParts (fuse_cons_congr _ hbelow)).jump stop

/-- What becomes of a mark: it closes what it finds a partner for, or else it is read anew. -/
theorem closed_alike (canClose : Bool) (accept : Opener → Bool) (kind : MarkupKind) (stop : Nat) {w w' : Verdict}
    (hw : w.Alike w') :
    Verdict.Alike (match if canClose then resolve? env u accept kind stop else none with
      | some s => .claimed s
      | none => w) (match if canClose then resolve? env v accept kind stop else none with
      | some s => .claimed s
      | none => w') := by
  cases canClose with
  | false => exact hw
  | true =>
      rcases resolve?_alike h accept kind stop with ⟨hu, hv⟩ | ⟨u', v', hu, hv, halike⟩
      · rw [if_pos rfl, if_pos rfl, hu, hv]
        exact hw
      · rw [if_pos rfl, if_pos rfl, hu, hv]
        exact .claimed halike

theorem emphasisRule_alike (mark : Char) : (emphasisRule env u site mark).Alike (emphasisRule env v site mark) := by
  unfold emphasisRule
  dsimp only
  rw [flanks_alike h, h.place]
  refine .ite (.claimed (h.pushLeaf _ _)) (closed_alike h _ _ _ _ ?_)
  exact .ite (.claimed (h.openMark _ _)) (.claimed (h.pushLeaf _ _))

theorem strikeRule_alike : (strikeRule env u site).Alike (strikeRule env v site) := by
  unfold strikeRule
  dsimp only
  rw [flanks_alike h, h.place]
  refine .ite .declined (closed_alike h _ _ _ _ ?_)
  exact .ite (.claimed (h.openMark _ _)) .declined

theorem linkOpenRule_alike (image : Bool) : (linkOpenRule env u image).Alike (linkOpenRule env v image) := by
  unfold linkOpenRule
  dsimp only
  rw [h.place, h.hasRoom]
  split
  · exact .claimed ((h.openMark _ _).shift _)
  · exact .claimed (h.openMark _ _)

theorem linkCloseRule_alike : (linkCloseRule env u site).Alike (linkCloseRule env v site) := by
  unfold linkCloseRule
  dsimp only
  split
  · split
    · exact .declined
    · rcases findWaiting?_alike h.parts with ⟨hu, hv⟩ | ⟨above, d, below, above', below', hu, hv, habove, hbelow⟩
      · rw [hu, hv]
        exact .declined
      · rw [hu, hv]
        dsimp only
        rw [settle_congr env.source habove, h.place]
        exact .claimed ((((h.withParts hbelow).shift _).push _).jump _)
  · exact .declined

theorem addressRule_alike : (addressRule env u site).Alike (addressRule env v site) := by
  unfold addressRule
  rw [h.place]
  split
  · exact .declined
  · exact .claimed ((h.push _).jump _)

theorem dashRule_alike : (dashRule env u site).Alike (dashRule env v site) := by
  unfold dashRule
  rw [h.place]
  exact .ite (.claimed (h.pushLeaf _ _)) .declined

theorem commentRule_alike : (commentRule env u site).Alike (commentRule env v site) := by
  unfold commentRule
  rw [h.place]
  exact .ite (.claimed (h.pushLeaf _ _)) .declined

theorem closes_alike (b : Bracket) : u.nesting.closes b = v.nesting.closes b := by
  rw [Nesting.closes, Nesting.closes, form?_eq, form?_eq, h.forms]

theorem closeBodyRule_alike : (closeBodyRule env u site).Alike (closeBodyRule env v site) := by
  unfold closeBodyRule lastBody?
  dsimp only
  rw [closes_alike h]
  refine .ite .declined ?_
  rcases findWaiting?_alike h.parts with ⟨hu, hv⟩ | ⟨above, d, below, above', below', hu, hv, habove, hbelow⟩
  · rw [hu, hv]
    exact .declined
  · rw [hu, hv]
    dsimp only
    rw [settle_congr env.source habove, h.place]
    have hclosed := fun block => (((h.withParts (fuse_cons_congr (.done block) hbelow)).shift (.closing .brace)).jump
      (v.place + 1))
    split
    · exact .claimed (hclosed _).finishCommand
    · exact .claimed ((hclosed _).openBody _)
    · exact .claimed (hclosed _).finishCommand

/-- **Every rule makes the same of states that are alike** where all rules are active. -/
theorem fullRule_alike (c : Char) : (fullRule env u site c).Alike (fullRule env v site c) := by
  unfold fullRule
  refine .ite (escapeRule_alike h) (.ite (commandRule_alike h _ _) ?_)
  refine .ite (.ite (commandRule_alike h _ _) .declined) (.ite (commandRule_alike h _ _) ?_)
  refine .ite (referenceRule_alike h) (.ite (mathRule_alike h) (.ite (codeRule_alike h) ?_))
  refine .ite (emphasisRule_alike h c) (.ite (strikeRule_alike h) (.ite (linkOpenRule_alike h false) ?_))
  refine .ite (.ite (linkOpenRule_alike h true) .declined) (.ite (linkCloseRule_alike h) ?_)
  refine .ite (addressRule_alike h) (.ite (dashRule_alike h) (.ite (commentRule_alike h) ?_))
  exact .ite (closeBodyRule_alike h) .declined

/-! ## Closing commands -/

theorem closeCommand_alike : (closeCommand env u).Alike (closeCommand env v) := by
  unfold closeCommand lastBody?
  rcases findWaiting?_alike h.parts with ⟨hu, hv⟩ | ⟨above, d, below, above', below', hu, hv, habove, hbelow⟩
  · rw [hu, hv]
    exact h
  · rw [hu, hv]
    dsimp only
    rw [settle_congr env.source habove]
    split
    · exact (h.withParts (fuse_cons_congr _ hbelow)).finishCommand
    · exact h.degradeCommand

/-- **The commands left open are closed in the same way.** -/
theorem closeCommands_alike (fuel : Nat) : (closeCommands env fuel u).Alike (closeCommands env fuel v) := by
  induction fuel generalizing u v with
  | zero => exact h
  | succ fuel ih =>
      rw [closeCommands_succ, closeCommands_succ]
      exact ih (closeCommand_alike h)

end Rules

end ComponentMarkup.Markup
