import ComponentMarkup.Proofs.Markup.InlineTiling

/-!
# Commands and what surrounds them

While a region is read, two stacks tell which commands are open: the parts, where an open command and its open body
are waiting, and the frames of the nesting.  They always match.  For each open command there is one waiting body
above the waiting command, and one frame of a body in braces inside the frame of a head.  So a closing brace that the
nesting takes for the end of a body always finds that body, and when the commands left open are closed, no frame is
left either.

* `Matched` — waiting commands and bodies match the frames of a nesting;
* `fullRule_paired`, `templateRule_paired`, `plainText_paired`, `step_paired` — every step keeps them matched;
* `closeCommand_paired` — closing a command takes one command with its body away, and its frames;
* `inlineNodes_paired` — no frame is left over at the end of a region.
-/

namespace ComponentMarkup.Markup

open ComponentMarkup.Text ComponentMarkup.Tree

/-! ## Waiting commands and bodies -/

/-- What a waiting delimiter is to a command. -/
inductive CommandPart where
  /-- The command itself. -/
  | introducer
  /-- A body of the command. -/
  | body
  deriving DecidableEq

/-- What a part is to a command, if it is a delimiter that waits for the end of one. -/
def Part.command? : Part → Option CommandPart
  | .waiting ⟨.command _ _, _, _⟩ => some .introducer
  | .waiting ⟨.body, _, _⟩ => some .body
  | _ => none

/-- The waiting commands and bodies among parts, last first. -/
def commandParts (parts : List Part) : List CommandPart :=
  parts.filterMap Part.command?

variable {parts above below : List Part} {d : Delimiter} {tags : List CommandPart}

theorem commandParts_done (node : Node) (parts : List Part) :
    commandParts (.done node :: parts) = commandParts parts :=
  rfl

theorem commandParts_append (above below : List Part) :
    commandParts (above ++ below) = commandParts above ++ commandParts below :=
  List.filterMap_append

theorem commandParts_map (nodes : List Node) : commandParts (nodes.map .done) = [] := by
  induction nodes with
  | nil => rfl
  | cons node nodes ih => exact ih

/-- What is done may be replaced by others that are done. -/
theorem commandParts_flatMap {replace : Part → List Part} (hdone : ∀ node, commandParts (replace (.done node)) = [])
    (hwaiting : ∀ d, replace (.waiting d) = [.waiting d]) (parts : List Part) :
    commandParts (parts.flatMap replace) = commandParts parts := by
  induction parts with
  | nil => rfl
  | cons part parts ih =>
      rw [List.flatMap_cons, commandParts_append, ih]
      cases part with
      | done node => rw [hdone, commandParts_done, List.nil_append]
      | waiting d => rw [hwaiting, ← commandParts_append, List.singleton_append]

/-- Marks and links are no parts of commands. -/
theorem command?_mark (h : d.opener.isCommand = false) (h' : d.opener.isBody = false) :
    Part.command? (.waiting d) = none := by
  obtain ⟨opener, span, level⟩ := d
  cases opener with
  | command kind head => exact absurd h (by simp [Opener.isCommand])
  | body => exact absurd h' (by simp [Opener.isBody])
  | emphasis mark width => rfl
  | strike => rfl
  | link image => rfl

theorem commandParts_mark (h : d.opener.isCommand = false) (h' : d.opener.isBody = false) (parts : List Part) :
    commandParts (.waiting d :: parts) = commandParts parts :=
  List.filterMap_cons_none (command?_mark h h')

/-- Above the mark or link that is found nothing waits that is part of a command, so no part of one is taken away. -/
theorem commandParts_found {accept : Opener → Bool}
    (haccept : ∀ opener, accept opener = true → opener.isCommand = false ∧ opener.isBody = false)
    (h : findWaiting? accept Opener.isBarrier parts = some (above, d, below)) :
    commandParts below = commandParts parts := by
  induction parts generalizing above with
  | nil => exact absurd h (by simp [findWaiting?])
  | cons part parts ih =>
      cases part with
      | done node =>
          obtain ⟨⟨above', d', below'⟩, hfound, heq⟩ := Option.map_eq_some_iff.mp h
          obtain ⟨-, rfl, rfl⟩ : _ ∧ d' = d ∧ below' = below := by simpa using heq
          rw [commandParts_done]
          exact ih hfound
      | waiting e =>
          rw [findWaiting?] at h
          split at h
          · rename_i haccepted
            obtain ⟨-, rfl, rfl⟩ : _ ∧ e = d ∧ parts = below := by simpa using h
            exact (commandParts_mark (haccept _ haccepted).1 (haccept _ haccepted).2 parts).symm
          · split at h
            · exact absurd h (by simp)
            · rename_i hbarrier
              obtain ⟨⟨above', d', below'⟩, hfound, heq⟩ := Option.map_eq_some_iff.mp h
              obtain ⟨-, rfl, rfl⟩ : _ ∧ d' = d ∧ below' = below := by simpa using heq
              rw [commandParts_mark, ih hfound]
              · cases hopener : e.opener <;> simp [hopener, Opener.isBarrier, Opener.isCommand] at hbarrier ⊢
              · cases hopener : e.opener <;> simp [hopener, Opener.isBarrier, Opener.isBody] at hbarrier ⊢

/-- The last part of a command is found by what it is. -/
theorem findWaiting?_first {accept : Opener → Bool} {tag : CommandPart}
    (haccept : ∀ d : Delimiter, accept d.opener = true ↔ Part.command? (.waiting d) = some tag)
    (h : commandParts parts = tag :: tags) :
    ∃ above d below, findWaiting? accept (fun _ => false) parts = some (above, d, below) ∧
      commandParts above = [] ∧ commandParts below = tags := by
  induction parts with
  | nil => exact absurd h (List.cons_ne_nil _ _).symm
  | cons part parts ih =>
      cases part with
      | done node =>
          obtain ⟨above, d, below, hfound, habove, hbelow⟩ := ih h
          refine ⟨.done node :: above, d, below, ?_, habove, hbelow⟩
          rw [findWaiting?, hfound]
          rfl
      | waiting e =>
          rw [findWaiting?]
          by_cases haccepted : accept e.opener = true
          · have htag := (haccept e).mp haccepted
            rw [commandParts, List.filterMap_cons_some htag] at h
            rw [if_pos haccepted]
            exact ⟨[], e, parts, rfl, rfl, (List.cons.inj h).2⟩
          · rw [if_neg haccepted, if_neg Bool.false_ne_true]
            have hnone : Part.command? (.waiting e) = none := by
              cases hcommand : Part.command? (.waiting e) with
              | none => rfl
              | some other =>
                  rw [commandParts, List.filterMap_cons_some hcommand] at h
                  rw [(List.cons.inj h).1] at hcommand
                  exact absurd ((haccept e).mpr hcommand) haccepted
            rw [commandParts, List.filterMap_cons_none hnone] at h
            obtain ⟨above, d, below, hfound, habove, hbelow⟩ := ih h
            refine ⟨.waiting e :: above, d, below, ?_, ?_, hbelow⟩
            · rw [hfound]
              rfl
            · rw [commandParts, List.filterMap_cons_none hnone]
              exact habove

theorem isBody_iff (d : Delimiter) : d.opener.isBody = true ↔ Part.command? (.waiting d) = some .body := by
  obtain ⟨opener, span, level⟩ := d
  cases opener <;> simp [Opener.isBody, Part.command?]

theorem isCommand_iff (d : Delimiter) : d.opener.isCommand = true ↔ Part.command? (.waiting d) = some .introducer := by
  obtain ⟨opener, span, level⟩ := d
  cases opener <;> simp [Opener.isCommand, Part.command?]

/-- The last waiting body is found, if no command waits above it. -/
theorem lastBody?_first (h : commandParts parts = .body :: tags) :
    ∃ above d below, lastBody? parts = some (above, d, below) ∧ commandParts above = [] ∧ commandParts below = tags :=
  findWaiting?_first isBody_iff h

/-- The last waiting command is found, if no body waits above it. -/
theorem lastCommand?_first (h : commandParts parts = .introducer :: tags) :
    ∃ above kind head span level below, lastCommand? parts = some (above, ⟨.command kind head, span, level⟩, below) ∧
      commandParts above = [] ∧ commandParts below = tags := by
  obtain ⟨above, ⟨opener, span, level⟩, below, hfound, habove, hbelow⟩ := findWaiting?_first isCommand_iff h
  obtain ⟨-, hopener⟩ := findWaiting?_spec hfound
  cases opener with
  | command kind head => exact ⟨above, kind, head, span, level, below, hfound, habove, hbelow⟩
  | _ => exact absurd hopener Bool.false_ne_true

/-- No body is found if none waits. -/
theorem lastBody?_none (h : commandParts parts = []) : lastBody? parts = none := by
  cases hfound : lastBody? parts with
  | none => rfl
  | some found =>
      obtain ⟨above, d, below⟩ := found
      obtain ⟨rfl, hbody⟩ := findWaiting?_spec hfound
      rw [commandParts_append, commandParts, commandParts, List.filterMap_cons_some ((isBody_iff d).mp hbody)] at h
      exact absurd (List.append_eq_nil_iff.mp h).2 (List.cons_ne_nil _ _)

/-! ## Matching frames -/

/-- Waiting commands and bodies match the frames of a nesting, both innermost first: each open command has a body in
braces that is open, and a frame for either. -/
inductive Matched : List CommandPart → List FrameForm → Prop where
  /-- No command is open. -/
  | root : Matched [] []
  /-- A command is open inside others. -/
  | command {tags : List CommandPart} {forms : List FrameForm} (pending : Pending) (outside : Matched tags forms) :
      Matched (.body :: .introducer :: tags) (.body .brace pending :: .head :: forms)

/-- What the frames of a nesting stand for. -/
def Nesting.forms (n : Nesting) : List FrameForm :=
  n.frames.map Frame.form

variable {n : Nesting} {forms : List FrameForm}

/-- A nesting that matches a command has the frames of one. -/
theorem Matched.frames (h : Matched tags n.forms) : (tags = [] ∧ n.frames = []) ∨
    ∃ pending body head frames rest, tags = .body :: .introducer :: rest ∧ n.frames = body :: head :: frames ∧
      body.form = .body .brace pending ∧ head.form = .head ∧ Matched rest (frames.map Frame.form) := by
  obtain ⟨frames, lineStart, supply⟩ := n
  generalize hforms : Nesting.forms ⟨frames, lineStart, supply⟩ = forms at h
  cases h with
  | root => exact .inl ⟨rfl, List.map_eq_nil_iff.mp hforms⟩
  | @command rest _ pending outside =>
      obtain ⟨body, more, rfl, hbody, hmore⟩ := List.map_eq_cons_iff.mp hforms
      obtain ⟨head, frames, rfl, hhead, rfl⟩ := List.map_eq_cons_iff.mp hmore
      exact .inr ⟨pending, body, head, frames, rest, rfl, rfl, hbody, hhead, outside⟩

/-- A literal bracket that is opened is counted. -/
theorem Matched.opening (h : Matched tags n.forms) (b : Bracket) : Matched tags (n.shift (.opening b)).forms := by
  rcases h.frames with ⟨rfl, hnone⟩ | ⟨pending, body, head, frames, rest, rfl, hframes, hbody, hhead, houtside⟩
  · have hsame : (n.shift (.opening b)).frames = [] := by
      simp [Nesting.shift, Nesting.shiftFrames, Nesting.form?, hnone]
    rw [Nesting.forms, hsame]
    exact .root
  · have hcounted : (n.shift (.opening b)).forms =
        .body .brace (pending.set b (pending.get b + 1)) :: .head :: frames.map Frame.form := by
      simp [Nesting.shift, Nesting.shiftFrames, Nesting.form?, Nesting.forms, Nesting.replace, hframes, hbody, hhead]
    rw [hcounted]
    exact .command _ houtside

/-- A literal bracket that is closed is counted, unless it is the brace that ends a body. -/
theorem Matched.closing (h : Matched tags n.forms) {b : Bracket} (hb : n.closes b = false ∨ b ≠ .brace) :
    Matched tags (n.shift (.closing b)).forms := by
  rcases h.frames with ⟨rfl, hnone⟩ | ⟨pending, body, head, frames, rest, rfl, hframes, hbody, hhead, houtside⟩
  · have hsame : (n.shift (.closing b)).frames = [] := by
      simp [Nesting.shift, Nesting.shiftFrames, Nesting.form?, hnone]
    rw [Nesting.forms, hsame]
    exact .root
  · by_cases hopen : 0 < pending.get b
    · have hcounted : (n.shift (.closing b)).forms =
          .body .brace (pending.set b (pending.get b - 1)) :: .head :: frames.map Frame.form := by
        simp [Nesting.shift, Nesting.shiftFrames, Nesting.form?, Nesting.forms, Nesting.replace, hframes, hbody, hhead,
          hopen]
      rw [hcounted]
      exact .command _ houtside
    · have hother : b ≠ .brace := by
        rcases hb with hcloses | hother
        · rintro rfl
          simp [Nesting.closes, Nesting.form?, hframes, hbody] at hcloses
          omega
        · exact hother
      have hsame : (n.shift (.closing b)).forms = n.forms := by
        simp [Nesting.shift, Nesting.shiftFrames, Nesting.form?, Nesting.forms, hframes, hbody, hopen, hother]
      rw [hsame]
      exact h

/-- A brace that ends a body takes its frame away. -/
theorem Matched.closes (h : Matched tags n.forms) (hcloses : n.closes .brace = true) :
    ∃ rest forms, tags = .body :: .introducer :: rest ∧ (n.shift (.closing .brace)).forms = .head :: forms ∧
      Matched rest forms := by
  rcases h.frames with ⟨rfl, hnone⟩ | ⟨pending, body, head, frames, rest, rfl, hframes, hbody, hhead, houtside⟩
  · exact absurd hcloses (by simp [Nesting.closes, Nesting.form?, hnone])
  · refine ⟨rest, frames.map Frame.form, rfl, ?_, houtside⟩
    have hpending : pending.get .brace = 0 := by
      simpa [Nesting.closes, Nesting.form?, hframes, hbody] using hcloses
    simp [Nesting.shift, Nesting.shiftFrames, Nesting.form?, Nesting.forms, Nesting.pop, hframes, hbody, hhead, hpending]

/-- A complete command takes its frames away, those of a head and of the body inside it if there is one. -/
theorem completeCommand_head (body : List FrameForm) (h : n.forms = body ++ .head :: forms) (hbody : .head ∉ body) :
    n.completeCommand.forms = forms := by
  obtain ⟨frames, lineStart, supply⟩ := n
  have houtside : ∀ (frames : List Frame) (body : List FrameForm), frames.map Frame.form = body ++ .head :: forms →
      .head ∉ body → (Nesting.outsideCommand frames).map Frame.form = forms := by
    intro frames
    induction frames with
    | nil => exact fun body h _ => absurd h (List.append_ne_nil_of_right_ne_nil _ (List.cons_ne_nil _ _)).symm
    | cons frame frames ih =>
        intro body h hbody
        rw [Nesting.outsideCommand]
        cases body with
        | nil =>
            obtain ⟨hhead, hrest⟩ := List.cons.inj h
            rw [if_pos hhead]
            exact hrest
        | cons form body =>
            obtain ⟨hform, hrest⟩ := List.cons.inj h
            have hne : frame.form ≠ .head := fun heq => hbody (heq ▸ hform ▸ List.mem_cons_self)
            rw [if_neg hne]
            exact ih body hrest fun hmem => hbody (List.mem_cons_of_mem form hmem)
  exact houtside frames body h hbody

/-! ## States -/

/-- **The invariant**: the waiting commands and bodies of a state match its frames. -/
def State.Paired (s : State) : Prop :=
  Matched (commandParts s.parts) s.nesting.forms

/-- A verdict that keeps the invariant. -/
def Verdict.Paired : Verdict → Prop
  | .claimed s => s.Paired
  | .declined => True
  | .tooDeep => True

theorem Verdict.Paired.ite {c : Prop} [Decidable c] {v w : Verdict} (hv : v.Paired) (hw : w.Paired) :
    (if c then v else w).Paired := by
  split
  · exact hv
  · exact hw

variable {env : Env} {src : Source} {s s' : State} {site : Site}

namespace State.Paired

/-- A region starts without commands. -/
theorem start (segments : List Span) : (State.start segments).Paired :=
  .root

theorem congr (h : s.Paired) (hparts : commandParts s'.parts = commandParts s.parts)
    (hforms : s'.nesting.forms = s.nesting.forms) : s'.Paired := by
  rw [State.Paired, hparts, hforms]
  exact h

theorem pushLeaf (h : s.Paired) (src : Source) (kind : MarkupKind) (stop : Nat) : (s.pushLeaf src kind stop).Paired :=
  h

theorem shiftOther (h : s.Paired) : (s.shift .other).Paired :=
  h

theorem shiftOpening (h : s.Paired) (b : Bracket) : (s.shift (.opening b)).Paired :=
  Matched.opening h b

/-- A command without an open body leaves nothing behind. -/
theorem shiftCommand (h : s.Paired) : ((s.shift .introducer).completeCommand).Paired :=
  h.congr rfl (completeCommand_head [] rfl List.not_mem_nil)

/-- A command with an open body. -/
theorem openCommand (h : s.Paired) (kind : MarkupKind) (head : List Node) (span : Span) (brace : Nat) :
    (((s.shift .introducer).pushWaiting (.command kind head) span).openBody brace).Paired :=
  .command {} h

theorem openMark (h : s.Paired) {opener : Opener} (hcommand : opener.isCommand = false)
    (hbody : opener.isBody = false) (src : Source) (stop : Nat) : (s.openMark src opener stop).Paired := by
  unfold State.openMark
  split
  · refine h.congr ?_ rfl
    exact commandParts_mark hcommand hbody s.parts
  · exact h

end State.Paired

/-- A state in which a body of a command was just closed. -/
structure State.Headed (s : State) (tags : List CommandPart) (forms : List FrameForm) : Prop where
  parts : commandParts s.parts = .introducer :: tags
  frames : s.nesting.forms = .head :: forms
  outside : Matched tags forms

/-- Another body of the command is opened. -/
theorem State.Headed.openBody (h : s.Headed tags forms) (brace : Nat) : (s.openBody brace).Paired := by
  have hform : s.nesting.form? = some .head := by
    have hhead := congrArg List.head? h.frames
    rw [Nesting.forms, List.head?_map] at hhead
    exact hhead
  have hforms : (s.openBody brace).nesting.forms = .body .brace {} :: .head :: forms := by
    rw [← h.frames]
    show (s.nesting.shift (.opening .brace)).forms = _
    simp [Nesting.shift, Nesting.shiftFrames, hform, Nesting.forms, Nesting.push]
  have hparts : commandParts (s.openBody brace).parts = .body :: .introducer :: tags := by
    rw [← h.parts]
    rfl
  rw [State.Paired, hforms, hparts]
  exact .command {} h.outside

/-- The last open command is wrapped, and its frames are gone. -/
theorem finishCommand_last (src : Source) (body : List FrameForm) (hparts : commandParts s.parts = .introducer :: tags)
    (hframes : s.nesting.forms = body ++ .head :: forms) (hbody : .head ∉ body) :
    commandParts (s.finishCommand src).parts = tags ∧ (s.finishCommand src).nesting.forms = forms := by
  obtain ⟨above, kind, head, span, level, below, hfound, -, hbelow⟩ := lastCommand?_first hparts
  have hforms := completeCommand_head body hframes hbody
  unfold State.finishCommand
  rw [hfound]
  exact ⟨hbelow, hforms⟩

/-- A command is finished after its last body. -/
theorem State.Headed.finishCommand (h : s.Headed tags forms) : (s.finishCommand src).Paired := by
  obtain ⟨hparts, hforms⟩ := finishCommand_last src [] h.parts h.frames List.not_mem_nil
  rw [State.Paired, hparts, hforms]
  exact h.outside

/-! ## Rules -/

theorem escapeRule_paired (h : s.Paired) : (escapeRule env s site).Paired := by
  unfold escapeRule
  split
  · exact .ite (h.pushLeaf _ _ _) trivial
  · trivial

/-- A command is complete, or its first body is open. -/
theorem commandRule_paired (h : s.Paired) (kind : MarkupKind) (width : Nat) :
    (commandRule env s site kind width).Paired := by
  unfold commandRule
  dsimp only
  refine .ite trivial ?_
  split
  · trivial
  refine .ite trivial (.ite trivial ?_)
  split
  · -- a verbatim body is closed at once
    exact h.congr rfl rfl
  refine .ite (h.openCommand kind _ _ _) (.ite trivial (.ite ?_ ?_))
  · exact h.shiftCommand.congr rfl rfl
  · exact h.shiftCommand.congr rfl rfl

theorem referenceRule_paired (h : s.Paired) : (referenceRule env s site).Paired := by
  unfold referenceRule
  split
  · trivial
  · exact .ite trivial (h.shiftCommand.congr rfl rfl)

theorem mathRule_paired (h : s.Paired) : (mathRule env s site).Paired := by
  unfold mathRule
  split
  · refine .ite trivial ?_
    split
    · trivial
    · exact .ite trivial (h.congr rfl rfl)
  · trivial

theorem codeRule_paired (h : s.Paired) : (codeRule env s site).Paired := by
  unfold codeRule
  dsimp only
  split
  · exact h.pushLeaf _ _ _
  · exact h.congr rfl rfl

/-- Marks that find their partner take no part of a command away. -/
theorem resolve?_paired {accept : Opener → Bool} {kind : MarkupKind} {stop : Nat} (h : s.Paired)
    (haccept : ∀ opener, accept opener = true → opener.isCommand = false ∧ opener.isBody = false)
    (hresolve : resolve? env s accept kind stop = some s') : s'.Paired := by
  obtain ⟨⟨above, d, below⟩, hfound, rfl⟩ := Option.map_eq_some_iff.mp hresolve
  have hbelow := commandParts_found haccept hfound
  exact h.congr hbelow rfl

theorem isEmphasis_mark {mark : Char} {width : Nat} (opener : Opener) (h : opener.isEmphasis mark width = true) :
    opener.isCommand = false ∧ opener.isBody = false := by
  cases opener with
  | emphasis => exact ⟨rfl, rfl⟩
  | _ => exact absurd h Bool.false_ne_true

theorem isStrike_mark (opener : Opener) (h : opener.isStrike = true) :
    opener.isCommand = false ∧ opener.isBody = false := by
  cases opener with
  | strike => exact ⟨rfl, rfl⟩
  | _ => exact absurd h Bool.false_ne_true

theorem isLink_mark (opener : Opener) (h : opener.isLink = true) :
    opener.isCommand = false ∧ opener.isBody = false := by
  cases opener with
  | link => exact ⟨rfl, rfl⟩
  | _ => exact absurd h Bool.false_ne_true

theorem emphasisRule_paired (h : s.Paired) (mark : Char) : (emphasisRule env s site mark).Paired := by
  unfold emphasisRule
  dsimp only
  refine .ite (h.pushLeaf _ _ _) ?_
  split
  · rename_i closed hclosed
    split at hclosed
    · exact resolve?_paired h isEmphasis_mark hclosed
    · exact absurd hclosed (Option.some_ne_none closed).symm
  · exact .ite (h.openMark rfl rfl _ _) (h.pushLeaf _ _ _)

theorem strikeRule_paired (h : s.Paired) : (strikeRule env s site).Paired := by
  unfold strikeRule
  dsimp only
  refine .ite trivial ?_
  split
  · rename_i closed hclosed
    split at hclosed
    · exact resolve?_paired h isStrike_mark hclosed
    · exact absurd hclosed (Option.some_ne_none closed).symm
  · exact .ite (h.openMark rfl rfl _ _) trivial

theorem linkOpenRule_paired (h : s.Paired) (image : Bool) : (linkOpenRule env s image).Paired := by
  have hopen : (s.openMark env.source (.link image) (s.place + if image then 2 else 1)).Paired :=
    h.openMark rfl rfl _ _
  unfold linkOpenRule
  dsimp only
  split
  · exact hopen.shiftOpening .square
  · exact hopen

/-- A link that is closed takes no part of a command away.  Its bracket does not end a body in braces. -/
theorem linkCloseRule_paired (h : s.Paired) : (linkCloseRule env s site).Paired := by
  unfold linkCloseRule
  dsimp only
  split
  · split
    · trivial
    · split
      · trivial
      · rename_i above d below hfound
        have hmatched : Matched (commandParts below) s.nesting.forms := by
          rw [commandParts_found isLink_mark hfound]
          exact h
        exact hmatched.closing (.inr (by decide))
  · trivial

theorem addressRule_paired (h : s.Paired) : (addressRule env s site).Paired := by
  unfold addressRule
  split
  · trivial
  · exact h.congr rfl rfl

theorem dashRule_paired (h : s.Paired) : (dashRule env s site).Paired :=
  .ite (h.pushLeaf _ _ _) trivial

theorem commentRule_paired (h : s.Paired) : (commentRule env s site).Paired :=
  .ite (h.pushLeaf _ _ _) trivial

/-- The end of a body finds the body, and its command is finished or gets another one. -/
theorem closeBodyRule_paired (h : s.Paired) : (closeBodyRule env s site).Paired := by
  unfold closeBodyRule
  dsimp only
  split
  · trivial
  · rename_i hcloses
    rw [Bool.not_eq_true', Bool.not_eq_false] at hcloses
    split
    · trivial
    · rename_i above d below hfound
      obtain ⟨rest, forms, htags, hforms, houtside⟩ := Matched.closes h hcloses
      obtain ⟨above', d', below', hfirst, -, hbelow⟩ := lastBody?_first htags
      -- the body that the rule finds is the one that the frames tell of
      obtain ⟨-, -, rfl⟩ : above = above' ∧ d = d' ∧ below = below' := by
        simpa using hfound.symm.trans hfirst
      have hheaded : ∀ block, ((({ s with parts := .done block :: below } : State).shift (.closing .brace)).jump
          (s.place + 1)).Headed rest forms := fun block => ⟨hbelow, hforms, houtside⟩
      split
      · exact (hheaded _).finishCommand
      · exact (hheaded _).openBody _
      · exact (hheaded _).finishCommand

/-- **Every rule keeps the invariant** where all rules are active. -/
theorem fullRule_paired (h : s.Paired) (c : Char) : (fullRule env s site c).Paired := by
  unfold fullRule
  refine .ite (escapeRule_paired h) ?_
  refine .ite (commandRule_paired h _ _) ?_
  refine .ite (.ite (commandRule_paired h _ _) trivial) ?_
  refine .ite (commandRule_paired h _ _) ?_
  refine .ite (referenceRule_paired h) ?_
  refine .ite (mathRule_paired h) ?_
  refine .ite (codeRule_paired h) ?_
  refine .ite (emphasisRule_paired h c) ?_
  refine .ite (strikeRule_paired h) ?_
  refine .ite (linkOpenRule_paired h false) ?_
  refine .ite (.ite (linkOpenRule_paired h true) trivial) ?_
  refine .ite (linkCloseRule_paired h) ?_
  refine .ite (addressRule_paired h) ?_
  refine .ite (dashRule_paired h) ?_
  refine .ite (commentRule_paired h) ?_
  exact .ite (closeBodyRule_paired h) trivial

/-- **Every rule keeps the invariant** in a formula. -/
theorem templateRule_paired (h : s.Paired) (c : Char) : (templateRule env s site c).Paired := by
  unfold templateRule
  refine .ite (.ite (h.pushLeaf _ _ _) trivial) ?_
  exact .ite (commandRule_paired h _ _) (.ite (closeBodyRule_paired h) trivial)

/-! ## Plain text and steps -/

/-- Where the end of a body is not read as one, the nesting does not take it for one either. -/
theorem closeBodyRule_declines (h : s.Paired) :
    (∃ s', closeBodyRule env s site = .claimed s') ∨ s.nesting.closes .brace = false := by
  cases hcloses : s.nesting.closes .brace with
  | false => exact .inr rfl
  | true =>
      obtain ⟨rest, forms, htags, -, -⟩ := Matched.closes h hcloses
      obtain ⟨above, d, below, hfound, -, -⟩ := lastBody?_first htags
      left
      unfold closeBodyRule
      dsimp only
      rw [hcloses, hfound]
      dsimp only
      rw [if_neg (by decide)]
      split
      · exact ⟨_, rfl⟩
      · exact ⟨_, rfl⟩
      · exact ⟨_, rfl⟩

/-- The brace that ends a body. -/
theorem closedBy?_brace {c : Char} (h : Bracket.closedBy? c = some .brace) : c = '}' := by
  unfold Bracket.closedBy? at h
  split at h
  · rename_i hc
    exact eq_of_beq hc
  · split at h
    · cases h
    · split at h
      · cases h
      · cases h

theorem openBraces_paired (h : s.Paired) (n : Nat) : (openBraces n s).Paired := by
  induction n generalizing s with
  | zero => exact h
  | succ n ih => exact ih (h.shiftOpening .brace)

/-- Plain text keeps the invariant, unless a brace ends a body there. -/
theorem plainText_paired {c : Char} (h : s.Paired) (hc : c = '}' → s.nesting.closes .brace = false) :
    (plainText env s site c).Paired := by
  have hevent : (s.shift (literalEvent c)).Paired := by
    unfold literalEvent
    split
    · exact h.shiftOpening _
    · rename_i b _ hclosed
      refine Matched.closing h ?_
      cases b with
      | brace => exact .inl (hc (closedBy?_brace hclosed))
      | square => exact .inr (by decide)
      | paren => exact .inr (by decide)
    · exact h.shiftOther
  unfold plainText
  dsimp only
  split
  · exact (openBraces_paired h _).shiftOther
  · exact hevent.pushLeaf _ _ _

/-- The next stretch is begun with the same commands open. -/
theorem nextSegment_paired (h : s.Paired) (segment : Span) (later : List Span) :
    (nextSegment env s segment later).Paired := by
  unfold nextSegment
  split
  · exact h
  · refine h.congr ?_ ?_
    · dsimp only
      split
      · rfl
      · rfl
    · dsimp only
      split
      · rfl
      · rfl

/-- What becomes of a verdict keeps the invariant, if a closing brace is only left to the rule for ends of bodies. -/
theorem Verdict.Paired.step {v : Verdict} {c : Char} (h : s.Paired) :
    (c = '}' → v = closeBodyRule env s site) → v.Paired → State.Paired (match v with
      | .claimed s => if c == '}' || c == '{' then s else s.shift .other
      | .declined => plainText env s site c
      | .tooDeep => plainText env (s.note (some s.place)) site c) := by
  intro hbrace hv
  have hplain : (∀ s', v ≠ .claimed s') → c = '}' → s.nesting.closes .brace = false := by
    intro hnot hc
    apply (closeBodyRule_declines h).resolve_left
    rintro ⟨s', hclaimed⟩
    exact hnot s' ((hbrace hc).trans hclaimed)
  have hnoted : (s.note (some s.place)).Paired := h
  cases v with
  | claimed s' =>
      dsimp only
      split
      · exact hv
      · exact hv.shiftOther
  | declined => exact plainText_paired h (hplain fun _ => nofun)
  | tooDeep => exact plainText_paired hnoted (hplain fun _ => nofun)

/-- **A step keeps the invariant.** -/
theorem step_paired (h : s.Paired) (segment : Span) (later : List Span) : (step env s segment later).Paired := by
  unfold step
  split
  · exact nextSegment_paired h segment later
  split
  · exact h.pushLeaf _ _ _
  dsimp only
  split
  · exact h
  rename_i c _ _
  refine Verdict.Paired.step h ?_ ?_
  · rintro rfl
    -- of all rules only the one for ends of bodies looks at a closing brace
    cases env.mode with
    | full => rfl
    | template => rfl
  · split
    · exact fullRule_paired h c
    · exact templateRule_paired h c

/-- However far a region is read, the invariant holds. -/
theorem readRegion_paired (h : s.Paired) (fuel : Nat) : (readRegion env fuel s).Paired := by
  induction fuel generalizing s with
  | zero => exact h
  | succ fuel ih =>
      unfold readRegion
      split
      · exact h
      · exact ih (step_paired h _ _)

/-! ## Closing commands -/

/-- Turning a command back into text takes it and its body away, and its frames. -/
theorem degradeCommand_last {rest : List CommandPart} (htags : commandParts s.parts = .body :: .introducer :: rest)
    {pending : Pending} (hforms : s.nesting.forms = .body .brace pending :: .head :: forms) :
    commandParts (s.degradeCommand src).parts = rest ∧ (s.degradeCommand src).nesting.forms = forms := by
  obtain ⟨above, body, below, hbody, habove, hbelow⟩ := lastBody?_first htags
  obtain ⟨between, kind, head, span, level, rest', hcommand, hbetween, hrest⟩ := lastCommand?_first hbelow
  unfold State.degradeCommand
  rw [hbody]
  dsimp only
  rw [hcommand]
  refine ⟨?_, completeCommand_head [.body .brace pending] hforms ?_⟩
  · show commandParts (above ++ .done _ :: (between.flatMap _) ++ .done _ :: rest') = rest
    rw [commandParts_append, commandParts_append, commandParts_done, commandParts_done, habove, hrest, List.nil_append,
      commandParts_flatMap, hbetween]
    · exact List.nil_append rest
    · intro node
      dsimp only
      split
      · exact commandParts_map _
      · rfl
    · exact fun d => rfl
  · exact fun hmem => FrameForm.noConfusion (List.mem_singleton.mp hmem)

/-- One pass of closing commands. -/
def closeCommand (env : Env) (s : State) : State :=
  match lastBody? s.parts with
  | none => s
  | some (above, d, below) =>
    if env.atEnd then
      let block := Node.markup .contentBlock <|
        leafOf env.source .leftBrace d.span.start d.span.stop :: settle env.source above
      ({ s with parts := .done block :: below } : State).finishCommand env.source
    else s.degradeCommand env.source

/-- Where no body waits there is nothing to close. -/
theorem closeCommands_none (h : lastBody? s.parts = none) (fuel : Nat) : closeCommands env fuel s = s := by
  cases fuel with
  | zero => rfl
  | succ fuel => rw [closeCommands, h]

/-- Commands are closed pass by pass. -/
theorem closeCommands_succ (env : Env) (fuel : Nat) (s : State) :
    closeCommands env (fuel + 1) s = closeCommands env fuel (closeCommand env s) := by
  rw [closeCommands, closeCommand]
  cases hfound : lastBody? s.parts with
  | none => exact (closeCommands_none hfound fuel).symm
  | some found =>
      dsimp only
      split
      · rfl
      · rfl

/-- **A pass keeps the invariant** and takes the last command with its body away. -/
theorem closeCommand_paired (env : Env) (h : s.Paired) : (closeCommand env s).Paired ∧
    commandParts (closeCommand env s).parts = (commandParts s.parts).drop 2 := by
  have hmatched := h
  unfold State.Paired at hmatched
  generalize htags : commandParts s.parts = tags at hmatched
  generalize hforms : s.nesting.forms = forms at hmatched
  cases hmatched with
  | root =>
      have hsame : closeCommand env s = s := by rw [closeCommand, lastBody?_none htags]
      rw [hsame]
      exact ⟨h, htags⟩
  | @command rest outer pending outside =>
      obtain ⟨above, d, below, hfound, -, hbelow⟩ := lastBody?_first htags
      have hlast : commandParts (closeCommand env s).parts = rest ∧ (closeCommand env s).nesting.forms = outer := by
        rw [closeCommand, hfound]
        dsimp only
        split
        · exact finishCommand_last env.source [.body .brace pending] hbelow hforms
            fun hmem => FrameForm.noConfusion (List.mem_singleton.mp hmem)
        · exact degradeCommand_last htags hforms
      refine ⟨?_, hlast.1⟩
      rw [State.Paired, hlast.1, hlast.2]
      exact outside

/-- However many passes are made, the invariant holds, and each has taken one command with its body away. -/
theorem closeCommands_paired (env : Env) (h : s.Paired) (fuel : Nat) : (closeCommands env fuel s).Paired ∧
    commandParts (closeCommands env fuel s).parts = (commandParts s.parts).drop (2 * fuel) := by
  induction fuel generalizing s with
  | zero => exact ⟨h, rfl⟩
  | succ fuel ih =>
      obtain ⟨hpaired, hparts⟩ := closeCommand_paired env h
      obtain ⟨hclosed, hrest⟩ := ih hpaired
      rw [closeCommands_succ]
      refine ⟨hclosed, ?_⟩
      rw [hrest, hparts, List.drop_drop]
      congr 1
      omega

/-- There are passes enough for all commands, and no frame is left over. -/
theorem closeCommands_root (env : Env) (h : s.Paired) : lastBody? (closeCommands env s.parts.length s).parts = none ∧
    (closeCommands env s.parts.length s).nesting.isRoot = true := by
  obtain ⟨hpaired, hparts⟩ := closeCommands_paired env h s.parts.length
  have hlength : (commandParts s.parts).length ≤ s.parts.length := List.length_filterMap_le _ _
  rw [List.drop_eq_nil_of_le (by omega)] at hparts
  refine ⟨lastBody?_none hparts, ?_⟩
  unfold State.Paired at hpaired
  rw [hparts] at hpaired
  rcases hpaired.frames with ⟨-, hnone⟩ | ⟨_, _, _, _, _, htags, _⟩
  · rw [Nesting.isRoot, hnone]
    rfl
  · exact absurd htags (List.cons_ne_nil _ _).symm

/-! ## Whole regions -/

/-- A region is read to its end, and no stretch is left. -/
theorem readRegion_segments {lo : Nat} (fuel : Nat) (he : env.Sound) (hs : s.Sound env lo)
    (hfuel : stepsLeft env s ≤ fuel) : (readRegion env fuel s).segments = [] := by
  induction fuel generalizing s with
  | zero =>
      rw [readRegion, ← List.length_eq_zero_iff]
      unfold stepsLeft at hfuel
      omega
  | succ fuel ih =>
      unfold readRegion
      split
      · assumption
      · rename_i segment later hsegments
        obtain ⟨hnext, hless⟩ := step_sound he hs hsegments
        exact ih hnext (by omega)

/-- How regions inside a region are read, if there may be `levels` more levels of them. -/
def nestedRegions (src : Source) : (levels : Nat) → Span → Mode → Limited (List Node)
  | 0, s, _ => ⟨[leafOf src .text s.start s.stop], some s.start⟩
  | levels + 1, s, mode => inlineNodes src levels [s] mode

/-- What a region is read with. -/
def regionEnv (src : Source) (levels : Nat) (segments : List Span) (mode : Mode) : Env :=
  let stop := (segments.getLast?.map Span.stop).getD 0
  { source := src, mode := mode, stop := stop, atEnd := isAllWhite (src.after stop), nested := nestedRegions src levels }

/-- A region when all of it has been read. -/
def regionEnd (src : Source) (levels : Nat) (segments : List Span) (mode : Mode) : State :=
  readRegion (regionEnv src levels segments mode) (regionSteps segments) (.start segments)

/-- A region is read, and then its commands are closed. -/
theorem inlineNodes_eq (src : Source) (levels : Nat) (segments : List Span) (mode : Mode) :
    inlineNodes src levels segments mode =
      let s := regionEnd src levels segments mode
      let closed := closeCommands (regionEnv src levels segments mode) s.parts.length s
      ⟨settle src closed.parts, closed.overflow⟩ := by
  cases levels with
  | zero => rfl
  | succ levels => rfl

theorem nestedRegions_run (src : Source) (levels : Nat) : NestedRuns src (nestedRegions src levels) := by
  intro inner mode hle hstop
  cases levels with
  | zero => exact leafOf_run hle hstop
  | succ levels => exact inlineNodes_run levels (Region.single hle) hstop mode

/-- All of a region is read. -/
theorem regionEnd_segments {src : Source} {segments : List Span} (hlines : Lines 0 src.size segments) (levels : Nat)
    (mode : Mode) : (regionEnd src levels segments mode).segments = [] := by
  cases segments with
  | nil => rfl
  | cons first later =>
      have hregion := Region.of_lines hlines
      have hstop : (regionEnv src levels (first :: later) mode).stop = lastStop first.stop later := hregion.last_stop
      have he : (regionEnv src levels (first :: later) mode).Sound :=
        ⟨hstop ▸ hlines.2.2.lastStop_bounds.2, nestedRegions_run src levels⟩
      rw [← hstop] at hregion
      exact readRegion_segments _ he (State.Sound.start hregion) (Nat.le_of_lt (stepsLeft_start rfl))

/-- **No frame is left over at the end of a region.**  However many steps are made, the waiting commands and bodies
match the frames.  All stretches are read, each pass of closing commands takes one command with its body away, and
at the end there is no body and no frame left. -/
theorem inlineNodes_paired {src : Source} {segments : List Span} (hlines : Lines 0 src.size segments) (levels : Nat)
    (mode : Mode) :
    let env := regionEnv src levels segments mode
    let s := regionEnd src levels segments mode
    let closed := closeCommands env s.parts.length s
    (∀ steps, (readRegion env steps (.start segments)).Paired) ∧
    s.segments = [] ∧
    (∀ passes, (closeCommands env passes s).Paired ∧
      commandParts (closeCommands env passes s).parts = (commandParts s.parts).drop (2 * passes)) ∧
    lastBody? closed.parts = none ∧ closed.nesting.isRoot = true ∧
    inlineNodes src levels segments mode = ⟨settle src closed.parts, closed.overflow⟩ := by
  have hpaired : (regionEnd src levels segments mode).Paired := readRegion_paired (.start segments) _
  obtain ⟨hbody, hroot⟩ := closeCommands_root (regionEnv src levels segments mode) hpaired
  exact ⟨readRegion_paired (.start segments), regionEnd_segments hlines levels mode, closeCommands_paired _ hpaired, hbody,
    hroot, inlineNodes_eq src levels segments mode⟩

/-- Two commands are left open, one in the other, and leave no frame. -/
theorem inlineNodes_paired_open :
    let src := Source.ofString "#a\x7bb\n#c\x7b[d"
    let segments : List Span := [⟨0, 4⟩, ⟨5, 10⟩]
    let env := regionEnv src 3 segments .full
    let s := regionEnd src 3 segments .full
    commandParts s.parts = [.body, .introducer, .body, .introducer] ∧ s.nesting.forms =
      [.body .brace ⟨0, 1, 0⟩, .head, .body .brace ⟨0, 0, 0⟩, .head] ∧
    (closeCommands env s.parts.length s).nesting.isRoot = true := by
  have hsize : (Source.ofString "#a\x7bb\n#c\x7b[d").size = 10 := by decide +kernel
  have hlines : Lines 0 (Source.ofString "#a\x7bb\n#c\x7b[d").size [⟨0, 4⟩, ⟨5, 10⟩] := by simp [Lines, hsize]
  refine ⟨by decide +kernel, by decide +kernel, ?_⟩
  exact (inlineNodes_paired hlines 3 .full).2.2.2.2.1

end ComponentMarkup.Markup
