import ComponentMarkup.Proofs.Markup.TouchingText

/-!
# Text character by character

Plain text is taken in runs: as much as holds nothing that a rule could claim.  A reader that takes one character at a
time, or a backslash with the introducer behind it, offers every place to the rules, and lets the frames react to each
bracket, makes the same of a region.  Inside a run every rule declines.  The literal braces of a run are balanced but
for those that it leaves open, so the frames end up the same, and the pieces of text touch.

* `plainChar` — the reader of single characters;
* `stepBy_ahead` — every step moves on, whatever the stretches are, so a region is always read to its end;
* `plainRun_reaches` — what a run takes is taken character by character;
* `inlineNodesBy_charText` — so regions come out the same.
-/

namespace ComponentMarkup.Markup

open ComponentMarkup.Text ComponentMarkup.Tree

/-! ## The reader -/

/-- What is made of a place that no rule claims. -/
abbrev PlainRule :=
  Env → State → Site → Char → State

/-- Takes one character of plain text, or a backslash and the introducer behind it. -/
def plainChar (env : Env) (s : State) (site : Site) (c : Char) : State :=
  match site.rest with
  | '\\' :: d :: _ =>
    if isIntroducer d then (s.pushLeaf env.source .text (s.place + 2)).shift .other
    else (s.shift (literalEvent c)).pushLeaf env.source .text (s.place + 1)
  | _ => (s.shift (literalEvent c)).pushLeaf env.source .text (s.place + 1)

/-- Takes single characters where all rules are active, and runs of text in formulas. -/
def charText : PlainRule := fun env =>
  match env.mode with
  | .full => plainChar env
  | .template => plainText env

/-- Reads what stands at the current place, with a given rule for plain text. -/
def stepBy (plain : PlainRule) (env : Env) (s : State) (segment : Span) (later : List Span) : State :=
  if segment.stop ≤ s.place then nextSegment env s segment later
  else if s.overflow.isSome then s.pushLeaf env.source .text segment.stop
  else
    let rest := env.source.slice s.place segment.stop
    match rest with
    | [] => { s with segments := [] }
    | c :: _ =>
      let site : Site := ⟨segment, rest⟩
      let verdict :=
        match env.mode with
        | .full => fullRule env s site c
        | .template => templateRule env s site c
      match verdict with
      | .claimed s => if c == '}' || c == '{' then s else s.shift .other
      | .declined => plain env s site c
      | .tooDeep => plain env (s.note (some s.place)) site c

/-- Reads the region to its end, with a given rule for plain text. -/
def readRegionBy (plain : PlainRule) (env : Env) : Nat → State → State
  | 0, s => s
  | fuel + 1, s =>
    match s.segments with
    | [] => s
    | segment :: later => readRegionBy plain env fuel (stepBy plain env s segment later)

/-- Reads a region, given how plain text and regions inside it are read. -/
def readInlineBy (plain : PlainRule) (src : Source) (nested : Span → Mode → Limited (List Node))
    (segments : List Span) (mode : Mode) : Limited (List Node) :=
  let stop := (segments.getLast?.map Span.stop).getD 0
  let env : Env :=
    { source := src, mode := mode, stop := stop, atEnd := isAllWhite (src.after stop), nested := nested }
  let s := readRegionBy plain env (regionSteps segments) (.start segments)
  let s := closeCommands env s.parts.length s
  ⟨settle src s.parts, s.overflow⟩

/-- Reads a region that may hold `levels` more levels of regions, all with a given rule for plain text. -/
def inlineNodesBy (plain : PlainRule) (src : Source) : (levels : Nat) → List Span → Mode → Limited (List Node)
  | 0 => readInlineBy plain src fun s _ => ⟨[leafOf src .text s.start s.stop], some s.start⟩
  | levels + 1 => readInlineBy plain src fun s mode => inlineNodesBy plain src levels [s] mode

theorem stepBy_plainText (env : Env) (s : State) (segment : Span) (later : List Span) :
    stepBy plainText env s segment later = step env s segment later :=
  rfl

/-- A rule that takes text in runs, where it is used, reads regions as they are. -/
theorem readRegionBy_runs {plain : PlainRule} {env : Env} (h : plain env = plainText env) (fuel : Nat) (s : State) :
    readRegionBy plain env fuel s = readRegion env fuel s := by
  induction fuel generalizing s with
  | zero => rfl
  | succ fuel ih =>
      unfold readRegionBy readRegion
      cases s.segments with
      | nil => rfl
      | cons segment later =>
          have hstep : stepBy plain env s segment later = step env s segment later := by
            rw [← stepBy_plainText, stepBy, stepBy, h]
          exact (ih _).trans (congrArg (readRegion env fuel) hstep)

/-- If regions come out the same whenever those inside them do, they do at any depth. -/
theorem inlineNodesBy_eq {plain : PlainRule} {src : Source}
    (h : ∀ nested segments mode, readInlineBy plain src nested segments mode = readInline src nested segments mode)
    (levels : Nat) (segments : List Span) (mode : Mode) :
    inlineNodesBy plain src levels segments mode = inlineNodes src levels segments mode := by
  induction levels generalizing segments mode with
  | zero => exact h _ segments mode
  | succ levels ih =>
      have hinside : (fun s mode => inlineNodesBy plain src levels [s] mode) =
          fun s mode => inlineNodes src levels [s] mode :=
        funext fun s => funext (ih [s])
      rw [inlineNodesBy, inlineNodes, hinside, h]

/-- With text taken in runs, inline content is read as it is. -/
theorem inlineNodesBy_plainText (src : Source) (levels : Nat) (segments : List Span) (mode : Mode) :
    inlineNodesBy plainText src levels segments mode = inlineNodes src levels segments mode := by
  refine inlineNodesBy_eq (fun nested segments mode => ?_) levels segments mode
  unfold readInlineBy readInline
  dsimp only
  rw [readRegionBy_runs rfl]

/-! ## Every step moves on -/

/-- A head ends behind its sigil. -/
theorem Head.read?_onward {src : Source} {start width limit : Nat} {head : Head}
    (h : Head.read? src start width limit = some head) : start + width ≤ head.stop := by
  simp only [Head.read?, Option.bind_eq_bind, Option.bind_eq_some_iff] at h
  obtain ⟨name, hname, h⟩ := h
  split at h
  · exact absurd h (by simp)
  obtain rfl := Option.some.inj h
  have hnext : start + width ≤ (name.map fun n => n.span.stop).getD (start + width) := by
    cases name with
    | none => exact Nat.le_refl _
    | some name => exact Nat.le_of_lt (Head.readName?_bound hname).2.1
  unfold Head.stop
  dsimp only
  cases hattributes : Head.readAttributes? ((name.map fun n => n.span.stop).getD (start + width))
      (src.slice ((name.map fun n => n.span.stop).getD (start + width)) limit) with
  | none =>
      cases name with
      | none => exact Nat.le_refl _
      | some name => exact hnext
  | some s =>
      obtain ⟨-, hlist, -⟩ := Head.readAttributes?_bound hattributes
      show start + width ≤ s.stop
      omega

/-- A state further on, in the same stretches or past some of them. -/
structure State.Onward (s s' : State) : Prop where
  forth : s.place < s'.place
  stretches : s'.segments = s.segments ∨ s'.segments = State.jumpAcross.skip s'.place s.segments

/-- A verdict that moves on. -/
def Verdict.Onward (s : State) : Verdict → Prop
  | .claimed s' => s.Onward s'
  | .declined => True
  | .tooDeep => True

section Rules

variable {env : Env} {s s' : State} {site : Site}

theorem Verdict.Onward.ite {c : Prop} [Decidable c] {v w : Verdict} (hv : v.Onward s) (hw : w.Onward s) :
    (if c then v else w).Onward s := by
  split
  · exact hv
  · exact hw

theorem escapeRule_onward : (escapeRule env s site).Onward s := by
  unfold escapeRule
  split
  · exact .ite ⟨Nat.lt_add_of_pos_right (by decide), .inl rfl⟩ trivial
  · trivial

theorem commandRule_onward (kind : MarkupKind) {width : Nat} (hwidth : 0 < width) :
    (commandRule env s site kind width).Onward s := by
  unfold commandRule
  dsimp only
  refine .ite trivial ?_
  split
  · trivial
  rename_i head hread
  have hhead := Head.read?_onward hread
  refine .ite trivial (.ite trivial ?_)
  split
  · rename_i close hverbatim
    split at hverbatim
    · obtain ⟨n, -, hclose⟩ := Option.bind_eq_some_iff.mp hverbatim
      split at hclose
      · obtain rfl := Option.some.inj hclose
        exact ⟨show s.place < head.stop + 2 + n + 2 by omega, .inr rfl⟩
      · exact absurd hclose (by simp)
    · exact absurd hverbatim (by simp)
  refine .ite ⟨show s.place < head.stop + 1 by omega, .inl rfl⟩ (.ite trivial (.ite ⟨?_, .inl rfl⟩ ⟨?_, .inl rfl⟩))
  · have hstop : head.stop + 1 ≤ (lineContent env s site.segment.stop (head.stop + 1)).2 := by
      unfold lineContent
      dsimp only
      split
      · exact Nat.le_add_right _ _
      · exact Nat.le_add_right _ _
    show s.place < (lineContent env s site.segment.stop (head.stop + 1)).2
    omega
  · show s.place < head.stop
    omega

theorem referenceRule_onward : (referenceRule env s site).Onward s := by
  unfold referenceRule
  split
  · trivial
  · rename_i head hread
    exact .ite trivial ⟨Head.read?_onward hread, .inl rfl⟩

theorem mathRule_onward : (mathRule env s site).Onward s := by
  unfold mathRule
  dsimp only
  split
  · refine .ite trivial ?_
    split
    · trivial
    · rename_i n _
      exact .ite trivial ⟨show s.place < s.place + 1 + n + 1 by omega, .inl rfl⟩
  · trivial

theorem codeRule_onward (h : 0 < runLength (· == '\x60') site.rest) : (codeRule env s site).Onward s := by
  unfold codeRule
  dsimp only
  split
  · exact ⟨Nat.lt_add_of_pos_right h, .inl rfl⟩
  · rename_i n _
    refine ⟨?_, .inl rfl⟩
    show s.place < s.place + runLength (· == '\x60') site.rest + n - runLength (· == '\x60') site.rest +
      runLength (· == '\x60') site.rest
    omega

theorem openMark_onward {opener : Opener} {stop : Nat} (h : s.place < stop) :
    s.Onward (s.openMark env.source opener stop) := by
  unfold State.openMark
  split
  · exact ⟨h, .inl rfl⟩
  · exact ⟨h, .inl rfl⟩

/-- What becomes of a mark moves on, if it does where the mark finds no partner. -/
theorem closed_onward {canClose : Bool} {accept : Opener → Bool} {kind : MarkupKind} {stop : Nat} {w : Verdict}
    (h : s.place < stop) (hw : w.Onward s) :
    Verdict.Onward s (match if canClose then resolve? env s accept kind stop else none with
      | some s => .claimed s
      | none => w) := by
  split
  · rename_i s' hclosed
    split at hclosed
    · obtain ⟨⟨above, d, below⟩, -, rfl⟩ := Option.map_eq_some_iff.mp hclosed
      exact ⟨h, .inl rfl⟩
    · exact absurd hclosed (Option.some_ne_none s').symm
  · exact hw

theorem emphasisRule_onward {mark : Char} (h : 0 < runLength (· == mark) site.rest) :
    (emphasisRule env s site mark).Onward s := by
  have hforth : s.place < s.place + runLength (· == mark) site.rest := Nat.lt_add_of_pos_right h
  unfold emphasisRule
  dsimp only
  refine .ite ⟨hforth, .inl rfl⟩ (closed_onward hforth ?_)
  exact .ite (openMark_onward hforth) ⟨hforth, .inl rfl⟩

theorem strikeRule_onward : (strikeRule env s site).Onward s := by
  have hforth : s.place < s.place + 2 := Nat.lt_add_of_pos_right (by decide)
  unfold strikeRule
  dsimp only
  exact .ite trivial (closed_onward hforth (.ite (openMark_onward hforth) trivial))

theorem linkOpenRule_onward (image : Bool) : (linkOpenRule env s image).Onward s := by
  have hforth : s.place < s.place + if image then 2 else 1 := by
    cases image with
    | false => exact Nat.lt_add_of_pos_right (by decide)
    | true => exact Nat.lt_add_of_pos_right (by decide)
  have hopened : s.Onward (s.openMark env.source (.link image) (s.place + if image then 2 else 1)) :=
    openMark_onward hforth
  unfold linkOpenRule
  dsimp only
  split
  · exact ⟨hopened.forth, hopened.stretches⟩
  · exact hopened

theorem linkCloseRule_onward : (linkCloseRule env s site).Onward s := by
  unfold linkCloseRule
  dsimp only
  split
  · split
    · trivial
    · rename_i n _
      split
      · trivial
      · exact ⟨show s.place < s.place + 2 + n + 1 by omega, .inl rfl⟩
  · trivial

theorem addressRule_onward : (addressRule env s site).Onward s := by
  unfold addressRule
  split
  · trivial
  · rename_i n _
    exact ⟨show s.place < s.place + 1 + n + 1 by omega, .inl rfl⟩

theorem dashRule_onward : (dashRule env s site).Onward s :=
  .ite ⟨Nat.lt_add_of_pos_right (by decide), .inl rfl⟩ trivial

theorem commentRule_onward (h : s.place < site.segment.stop) : (commentRule env s site).Onward s :=
  .ite ⟨h, .inl rfl⟩ trivial

theorem closeBodyRule_onward : (closeBodyRule env s site).Onward s := by
  unfold closeBodyRule
  dsimp only
  refine .ite trivial ?_
  split
  · trivial
  rename_i above d below _
  have hfinished : ∀ t : State, t.place = s.place + 1 → t.segments = s.segments →
      s.Onward (t.finishCommand env.source) := by
    intro t hplace hsegments
    obtain ⟨hsame, hsame'⟩ := finishCommand_place env.source t
    exact ⟨by rw [hsame, hplace]; exact Nat.lt_succ_self _, .inl (by rw [hsame', hsegments])⟩
  split
  · exact hfinished _ rfl rfl
  · exact ⟨show s.place < s.place + 1 + 1 by omega, .inl rfl⟩
  · exact hfinished _ rfl rfl

/-- **Every rule moves on** where all rules are active. -/
theorem fullRule_onward {c : Char} {cs : List Char} (hrest : site.rest = c :: cs) (hlt : s.place < site.segment.stop) :
    (fullRule env s site c).Onward s := by
  have hrun : 0 < runLength (· == c) site.rest := by
    rw [hrest, runLength_cons (· == c) (beq_self_eq_true c)]
    exact Nat.succ_pos _
  unfold fullRule
  refine .ite escapeRule_onward (.ite (commandRule_onward _ (by decide)) ?_)
  refine .ite (.ite (commandRule_onward _ (by decide)) trivial) (.ite (commandRule_onward _ (by decide)) ?_)
  refine .ite referenceRule_onward (.ite mathRule_onward ?_)
  split
  · rename_i hcode
    obtain rfl := eq_of_beq hcode
    exact codeRule_onward hrun
  refine .ite (emphasisRule_onward hrun) (.ite strikeRule_onward (.ite (linkOpenRule_onward false) ?_))
  refine .ite (.ite (linkOpenRule_onward true) trivial) (.ite linkCloseRule_onward ?_)
  refine .ite addressRule_onward (.ite dashRule_onward (.ite (commentRule_onward hlt) ?_))
  exact .ite closeBodyRule_onward trivial

/-- **Every rule moves on** in a formula. -/
theorem templateRule_onward {c : Char} : (templateRule env s site c).Onward s := by
  unfold templateRule
  refine .ite (.ite ⟨Nat.lt_add_of_pos_right (by decide), .inl rfl⟩ trivial) ?_
  exact .ite (commandRule_onward _ (by decide)) (.ite closeBodyRule_onward trivial)

theorem plainText_onward {c : Char} : s.Onward (plainText env s site c) := by
  unfold plainText
  dsimp only
  split
  · rename_i hrun
    obtain ⟨-, hplace, hsegments⟩ := openBraces_same (plainRun s.nesting.inHead s.nesting.inBody 0 site.rest).2 s
    exact ⟨Nat.lt_add_of_pos_right hrun, .inl hsegments⟩
  · exact ⟨Nat.lt_succ_self _, .inl rfl⟩

theorem plainChar_onward {c : Char} : s.Onward (plainChar env s site c) := by
  unfold plainChar
  split
  · split
    · exact ⟨Nat.lt_add_of_pos_right (by decide), .inl rfl⟩
    · exact ⟨Nat.lt_succ_self _, .inl rfl⟩
  · exact ⟨Nat.lt_succ_self _, .inl rfl⟩

theorem charText_onward {c : Char} : s.Onward (charText env s site c) := by
  unfold charText
  cases env.mode with
  | full => exact plainChar_onward
  | template => exact plainText_onward

end Rules

/-- How many steps may be left at a place, whatever the stretches are. -/
def stepsAhead (place : Nat) : List Span → Nat
  | [] => 0
  | segment :: later => segment.stop - place + regionSteps later

theorem regionSteps_pos (segments : List Span) : 0 < regionSteps segments := by
  cases segments with
  | nil => exact Nat.one_pos
  | cons segment later => exact Nat.lt_of_lt_of_le (Nat.succ_pos _) (Nat.le_add_right _ _)

theorem stepsAhead_skip (place : Nat) (segments : List Span) :
    stepsAhead place (State.jumpAcross.skip place segments) ≤ stepsAhead place segments := by
  induction segments with
  | nil => exact Nat.le_refl _
  | cons segment later ih =>
      cases later with
      | nil => exact Nat.le_refl _
      | cons next later =>
          rw [State.jumpAcross.skip]
          split
          · refine Nat.le_trans ih ?_
            rw [stepsAhead, stepsAhead, regionSteps]
            omega
          · exact Nat.le_refl _

variable {env : Env} {s s' : State} {segment : Span} {later : List Span}

/-- Whatever moves on within a stretch leaves fewer steps. -/
theorem State.Onward.less (h : s.Onward s') (hsegments : s.segments = segment :: later)
    (hlt : s.place < segment.stop) : stepsAhead s'.place s'.segments < stepsAhead s.place s.segments := by
  have hforth := h.forth
  have hfewer : stepsAhead s'.place (segment :: later) < stepsAhead s.place (segment :: later) := by
    rw [stepsAhead, stepsAhead]
    omega
  rw [hsegments]
  rcases h.stretches with hsame | hskip
  · rwa [hsame, hsegments]
  · rw [hskip, hsegments]
    exact Nat.lt_of_le_of_lt (stepsAhead_skip _ _) hfewer

/-- What becomes of a verdict moves on. -/
theorem Verdict.Onward.step {v : Verdict} {plain noted : State} (brace : Bool) (hplain : s.Onward plain)
    (hnoted : s.Onward noted) : v.Onward s → s.Onward (match v with
      | .claimed s => if brace then s else s.shift .other
      | .declined => plain
      | .tooDeep => noted) := by
  intro hv
  cases v with
  | claimed s' =>
      have hforth : s.Onward s' := hv
      dsimp only
      split
      · exact hforth
      · exact ⟨hforth.forth, hforth.stretches⟩
  | declined => exact hplain
  | tooDeep => exact hnoted

/-- **Every step leaves fewer steps**, if plain text moves on. -/
theorem stepBy_less (plain : PlainRule) (env : Env) (hplain : ∀ (s : State) site c, s.Onward (plain env s site c))
    (hsegments : s.segments = segment :: later) :
    stepsAhead (stepBy plain env s segment later).place (stepBy plain env s segment later).segments <
      stepsAhead s.place s.segments := by
  unfold stepBy
  split
  · rename_i hstop
    rw [hsegments, stepsAhead]
    unfold nextSegment
    split
    · exact Nat.lt_of_lt_of_le (regionSteps_pos _) (Nat.le_add_left _ _)
    · rename_i next rest
      have hkept : ∀ c : Prop, [Decidable c] → ∀ t : State, ∀ node : Node, (if c then t.push node else t).segments =
          t.segments := by
        intro c _ t node
        split
        · rfl
        · rfl
      show stepsAhead next.start (State.segments (if _ then _ else _)) < _
      rw [hkept, stepsAhead, regionSteps]
      omega
  rename_i hplace
  have hlt : s.place < segment.stop := Nat.lt_of_not_le hplace
  split
  · exact State.Onward.less ⟨hlt, .inl rfl⟩ hsegments hlt
  dsimp only
  split
  · rw [hsegments]
    exact Nat.lt_of_lt_of_le (regionSteps_pos _) (Nat.le_add_left _ _)
  rename_i c cs hrest
  have hnoted := hplain (s.note (some s.place)) ⟨segment, env.source.slice s.place segment.stop⟩ c
  refine State.Onward.less (Verdict.Onward.step (c == '}' || c == '{') (hplain _ _ _)
    ⟨hnoted.forth, hnoted.stretches⟩ ?_) hsegments hlt
  cases env.mode with
  | full => exact fullRule_onward hrest hlt
  | template => exact templateRule_onward

/-! ## Reading on -/

/-- A state is reached from another by steps that read single characters. -/
abbrev Reaches (env : Env) : State → State → Prop :=
  Relation.ReflTransGen fun s s' =>
    ∃ segment later, s.segments = segment :: later ∧ s' = stepBy charText env s segment later

theorem readRegionBy_nil (plain : PlainRule) (fuel : Nat) (h : s.segments = []) :
    readRegionBy plain env fuel s = s := by
  cases fuel with
  | zero => rfl
  | succ fuel => rw [readRegionBy, h]

/-- With steps enough, reading ends where it can get to and no stretch is left. -/
theorem readRegionBy_reaches (h : Reaches env s s') (hend : s'.segments = []) {fuel : Nat}
    (hfuel : stepsAhead s.place s.segments ≤ fuel) : readRegionBy charText env fuel s = s' := by
  induction h using Relation.ReflTransGen.head_induction_on generalizing fuel with
  | refl => exact readRegionBy_nil _ _ hend
  | head hstep _ ih =>
      obtain ⟨segment, later, hsegments, rfl⟩ := hstep
      have hless := stepBy_less charText env (fun _ _ _ => charText_onward) hsegments
      cases fuel with
      | zero => omega
      | succ fuel =>
          rw [readRegionBy, hsegments]
          exact ih (by omega)

/-- A region is read to its end, whatever its stretches are. -/
theorem readRegion_done {fuel : Nat} (hfuel : stepsAhead s.place s.segments ≤ fuel) :
    (readRegion env fuel s).segments = [] := by
  induction fuel generalizing s with
  | zero =>
      cases hsegments : s.segments with
      | nil => exact hsegments
      | cons segment later =>
          rw [hsegments, stepsAhead] at hfuel
          exact absurd hfuel (Nat.not_le.mpr (Nat.lt_of_lt_of_le (regionSteps_pos _) (Nat.le_add_left _ _)))
  | succ fuel ih =>
      unfold readRegion
      split
      · assumption
      · rename_i segment later hsegments
        have hless := stepBy_less plainText env (fun _ _ _ => plainText_onward) hsegments
        rw [stepBy_plainText] at hless
        exact ih (by omega)

/-! ## Runs of text -/

/-- A text that was taken is put above the parts, unless it is empty. -/
def attachText (src : Source) (start stop : Nat) (parts : List Part) : List Part :=
  if start = stop then parts else attach (.done (leafOf src .text start stop)) parts

/-- Texts that are taken one after the other are one text. -/
theorem attachText_attachText (src : Source) {i j k : Nat} (hij : i ≤ j) (hjk : j ≤ k) (parts : List Part) :
    attachText src j k (attachText src i j parts) = attachText src i k parts := by
  unfold attachText
  by_cases hfirst : i = j
  · rw [if_pos hfirst, hfirst]
  by_cases hsecond : j = k
  · rw [if_pos hsecond, hsecond]
  rw [if_neg hfirst, if_neg hsecond, if_neg (by omega)]
  have htext : src.text ⟨i, j⟩ ++ src.text ⟨j, k⟩ = src.text ⟨i, k⟩ := by
    rw [Source.text, Source.text, Source.text, ← String.ofList_append]
    exact congrArg String.ofList (src.slice_append hij hjk)
  have htouch : attach (textPart (src.text ⟨j, k⟩) ⟨j, k⟩) (attach (textPart (src.text ⟨i, j⟩) ⟨i, j⟩) parts) = _ :=
    attach_attach rfl parts
  rw [htext] at htouch
  exact htouch

/-- The frames after opening braces. -/
def openForms : Nat → List FrameForm → List FrameForm
  | 0, forms => forms
  | n + 1, forms => openForms n (shiftForms forms (.opening .brace))

theorem forms_openBraces (n : Nat) (s : State) : (openBraces n s).nesting.forms = openForms n s.nesting.forms := by
  induction n generalizing s with
  | zero => rfl
  | succ n ih => rw [openBraces, ih, openForms, State.shift, forms_shift]

theorem openForms_succ (n : Nat) (forms : List FrameForm) :
    openForms (n + 1) forms = shiftForms (openForms n forms) (.opening .brace) := by
  induction n generalizing forms with
  | zero => rfl
  | succ n ih => exact ih _

/-- In a body the open braces are counted. -/
theorem openForms_body (n : Nat) (opener : Bracket) (p : Pending) (forms : List FrameForm) :
    openForms n (.body opener p :: forms) = .body opener ⟨p.brace + n, p.square, p.paren⟩ :: forms := by
  induction n with
  | zero => rfl
  | succ n ih => rw [openForms_succ, ih]; rfl

/-- In a body a brace that was opened is closed again. -/
theorem openForms_closing (n : Nat) (opener : Bracket) (p : Pending) (forms : List FrameForm) :
    shiftForms (openForms (n + 1) (.body opener p :: forms)) (.closing .brace) =
      openForms n (.body opener p :: forms) := by
  rw [openForms_body, openForms_body]
  have hopen : 0 < (⟨p.brace + (n + 1), p.square, p.paren⟩ : Pending).get .brace := Nat.succ_pos _
  rw [shiftForms, if_pos hopen]
  rfl

/-- From one state to another some text was taken, with the given frames around the place then. -/
structure Taken (env : Env) (forms : List FrameForm) (s s' : State) (n : Nat) : Prop where
  segments : s'.segments = s.segments
  place : s'.place = s.place + n
  forms : s'.nesting.forms = forms
  parts : fuse s'.parts = attachText env.source s.place s'.place (fuse s.parts)
  overflow : s'.overflow = s.overflow

theorem Taken.refl (env : Env) (s : State) : Taken env s.nesting.forms s s 0 :=
  ⟨rfl, rfl, rfl, (if_pos rfl).symm, rfl⟩

theorem Taken.trans {forms forms' : List FrameForm} {t : State} {m n : Nat} (h : Taken env forms s s' m)
    (h' : Taken env forms' s' t n) : Taken env forms' s t (m + n) := by
  have hplace := h.place
  have hplace' := h'.place
  refine ⟨h'.segments.trans h.segments, by omega, h'.forms, ?_, h'.overflow.trans h.overflow⟩
  rw [h'.parts, h.parts, attachText_attachText _ (by omega) (by omega)]

/-- A text that is not empty was taken at once. -/
theorem Taken.text (env : Env) (s s' : State) {n : Nat} (hn : 0 < n) (hsegments : s'.segments = s.segments)
    (hplace : s'.place = s.place + n)
    (hparts : s'.parts = .done (leafOf env.source .text s.place (s.place + n)) :: s.parts)
    (hoverflow : s'.overflow = s.overflow) : Taken env s'.nesting.forms s s' n := by
  refine ⟨hsegments, hplace, rfl, ?_, hoverflow⟩
  rw [hparts, hplace, attachText, if_neg (by omega), fuse_cons]

/-- What was taken from states that are alike leads to states that are alike. -/
theorem Taken.alike {forms : List FrameForm} {u u' v v' : State} {n : Nat} (h : u.Alike v)
    (hu : Taken env forms u u' n) (hv : Taken env forms v v' n) : u'.Alike v' := by
  have hplace : u'.place = v'.place := by rw [hu.place, hv.place, h.place]
  refine ⟨?_, hplace, hu.forms.trans hv.forms.symm, ?_, ?_⟩
  · rw [hu.segments, hv.segments, h.segments]
  · rw [hu.parts, hv.parts, h.parts, h.place, hplace]
  · rw [hu.overflow, hv.overflow, h.overflow]

/-- No rule claims a character of plain text. -/
theorem fullRule_plain {site : Site} {c : Char} (hmeaning : (isIntroducer c || isTrigger c) = false) (hopen : c ≠ '[')
    (hclose : c ≠ ']') (hbody : c = '}' → s.nesting.closes .brace = false) : fullRule env s site c = .declined := by
  simp only [isIntroducer, isTrigger, Bool.or_eq_false_iff] at hmeaning
  have hbrace : (if (c == '}') = true then closeBodyRule env s site else .declined) = .declined := by
    split
    · rename_i hc
      unfold closeBodyRule
      rw [hbody (eq_of_beq hc)]
      rfl
    · rfl
  unfold fullRule
  simp only [hmeaning, hbrace, beq_eq_false_iff_ne.mpr hopen, beq_eq_false_iff_ne.mpr hclose, Bool.or_self,
    Bool.false_eq_true, if_false]

/-- No rule claims a backslash before an introducer. -/
theorem fullRule_pair {segment : Span} {d : Char} {cs : List Char} (h : isIntroducer d = true) :
    fullRule env s ⟨segment, '\\' :: d :: cs⟩ '\\' = .declined := by
  show escapeRule env s ⟨segment, '\\' :: d :: cs⟩ = .declined
  rw [escapeRule]
  dsimp only
  rw [h, Bool.not_true, Bool.and_false, if_neg Bool.false_ne_true]

theorem plainChar_pair {segment : Span} {d : Char} {cs : List Char} (h : isIntroducer d = true) :
    plainChar env s ⟨segment, '\\' :: d :: cs⟩ '\\' = (s.pushLeaf env.source .text (s.place + 2)).shift .other :=
  if_pos h

theorem plainChar_char {segment : Span} {c : Char} {cs : List Char}
    (h : ∀ d ds, c :: cs = '\\' :: d :: ds → isIntroducer d = false) :
    plainChar env s ⟨segment, c :: cs⟩ c = (s.shift (literalEvent c)).pushLeaf env.source .text (s.place + 1) := by
  unfold plainChar
  split
  · rename_i d ds hrest
    rw [h d ds hrest, if_neg Bool.false_ne_true]
  · rfl

/-- Where no rule claims a place, one character is taken. -/
theorem reaches_plainChar {c : Char} {cs : List Char} (hmode : env.mode = .full)
    (hsegments : s.segments = segment :: later) (hcalm : s.overflow = none)
    (hrest : env.source.slice s.place segment.stop = c :: cs)
    (hdeclined : fullRule env s ⟨segment, c :: cs⟩ c = .declined) :
    Reaches env s (plainChar env s ⟨segment, c :: cs⟩ c) := by
  refine .single ⟨segment, later, hsegments, ?_⟩
  have hlt : ¬ segment.stop ≤ s.place := Nat.not_le.mpr (env.source.lt_of_slice_cons hrest)
  unfold stepBy
  rw [if_neg hlt, if_neg (by rw [hcalm]; exact Bool.false_ne_true)]
  dsimp only
  rw [hrest, hmode]
  dsimp only
  rw [hdeclined, charText, hmode]

theorem literalEvent_other {c : Char} (hbrace : c ≠ '{' ∧ c ≠ '}')
    (hothers : (c == '[' || c == '(' || c == ']' || c == ')') = false) : literalEvent c = .other := by
  simp only [Bool.or_eq_false_iff, beq_eq_false_iff_ne] at hothers
  simp [literalEvent, Bracket.openedBy?, Bracket.closedBy?, hbrace, hothers]

/-- One character of plain text is taken. -/
theorem taken_char {c : Char} {cs : List Char} (hmode : env.mode = .full) (hsegments : s.segments = segment :: later)
    (hcalm : s.overflow = none) (hrest : env.source.slice s.place segment.stop = c :: cs)
    (hmeaning : (isIntroducer c || isTrigger c) = false) (hopen : c ≠ '[') (hclose : c ≠ ']')
    (hbody : c = '}' → s.nesting.closes .brace = false) :
    ∃ t, Reaches env s t ∧ Taken env (shiftForms s.nesting.forms (literalEvent c)) s t 1 := by
  have hbackslash : ∀ d ds, c :: cs = '\\' :: d :: ds → isIntroducer d = false := by
    intro d ds heq
    rw [(List.cons.inj heq).1] at hmeaning
    exact absurd hmeaning (by decide)
  refine ⟨_, reaches_plainChar hmode hsegments hcalm hrest (fullRule_plain hmeaning hopen hclose hbody), ?_⟩
  rw [plainChar_char hbackslash, ← forms_shift]
  exact .text env s ((s.shift (literalEvent c)).pushLeaf env.source .text (s.place + 1)) Nat.one_pos rfl rfl rfl rfl

/-- A backslash is taken with the introducer behind it. -/
theorem taken_pair {d : Char} {cs : List Char} (hmode : env.mode = .full) (hsegments : s.segments = segment :: later)
    (hcalm : s.overflow = none) (hrest : env.source.slice s.place segment.stop = '\\' :: d :: cs)
    (hd : isIntroducer d = true) : ∃ t, Reaches env s t ∧ Taken env s.nesting.forms s t 2 := by
  refine ⟨_, reaches_plainChar hmode hsegments hcalm hrest (fullRule_pair hd), ?_⟩
  rw [plainChar_pair hd]
  exact .text env s ((s.pushLeaf env.source .text (s.place + 2)).shift .other) Nat.two_pos rfl rfl rfl rfl

/-- Some text is taken, and then some more. -/
theorem taken_more {forms forms' : List FrameForm} {m n : Nat} {cs : List Char}
    (hsegments : s.segments = segment :: later) (hcalm : s.overflow = none)
    (hrest : (env.source.slice s.place segment.stop).drop m = cs)
    (hfirst : ∃ t, Reaches env s t ∧ Taken env forms s t m)
    (hmore : ∀ {t : State}, t.segments = segment :: later → t.overflow = none →
      env.source.slice t.place segment.stop = cs → t.nesting.forms = forms →
      ∃ u, Reaches env t u ∧ Taken env forms' t u n) :
    ∃ u, Reaches env s u ∧ Taken env forms' s u (n + m) := by
  obtain ⟨t, hreach, htaken⟩ := hfirst
  have hslice : env.source.slice t.place segment.stop = cs := by rw [htaken.place, ← Source.slice_drop, hrest]
  obtain ⟨u, hon, hall⟩ := hmore (htaken.segments.trans hsegments) (htaken.overflow.trans hcalm) hslice htaken.forms
  exact ⟨u, hreach.trans hon, Nat.add_comm n m ▸ htaken.trans hall⟩

/-- **What a run takes is taken character by character.**  Inside a body the braces that the run has opened so far are
counted as open, so a closing brace of the run ends no body. -/
theorem plainRun_reaches {inHead inBody : Bool} {opened : Nat} {cs : List Char} {forms : List FrameForm}
    (hmode : env.mode = .full) (hforms : inBody = true → ∃ opener p outside, forms = .body opener p :: outside)
    (hsegments : s.segments = segment :: later) (hcalm : s.overflow = none)
    (hrest : env.source.slice s.place segment.stop = cs) (hopened : s.nesting.forms = openForms opened forms) :
    ∃ t, Reaches env s t ∧ Taken env (openForms (plainRun inHead inBody opened cs).2 forms) s t
      (plainRun inHead inBody opened cs).1 := by
  fun_induction plainRun inHead inBody opened cs generalizing s with
  | case1 => exact ⟨s, .refl, hopened ▸ .refl env s⟩
  | case2 => exact ⟨s, .refl, hopened ▸ .refl env s⟩
  | case3 opened d cs hd n left hrun ih =>
      rw [hrun] at ih
      refine taken_more hsegments hcalm (by rw [hrest]) (taken_pair hmode hsegments hcalm hrest hd) ?_
      exact fun hsegments hcalm hrest hsame => ih hsegments hcalm hrest (hsame.trans hopened)
  | case4 => exact ⟨s, .refl, hopened ▸ .refl env s⟩
  | case5 => exact ⟨s, .refl, hopened ▸ .refl env s⟩
  | case6 opened c cs _ _ hplain hbrace hbody n left hrun ih =>
      obtain rfl := eq_of_beq hbrace
      rw [hrun] at ih
      refine taken_more hsegments hcalm (by rw [hrest])
        (taken_char hmode hsegments hcalm hrest (by decide) (by decide) (by decide) (absurd · (by decide))) ?_
      intro t hsegments hcalm hrest hshift
      refine ih hsegments hcalm hrest ?_
      rw [hshift, hopened, openForms_succ]
      rfl
  | case7 => exact ⟨s, .refl, hopened ▸ .refl env s⟩
  | case8 opened c cs _ _ hplain _ hbrace hopen n left hrun ih =>
      obtain rfl := eq_of_beq hbrace
      rw [hrun] at ih
      obtain ⟨hbody, hpos⟩ := (Bool.and_eq_true _ _).mp hopen
      obtain ⟨m, rfl⟩ : ∃ m, opened = m + 1 := ⟨opened - 1, by have := of_decide_eq_true hpos; omega⟩
      obtain ⟨opener, p, outside, rfl⟩ := hforms hbody
      have hkept : s.nesting.closes .brace = false := by
        rw [Nesting.closes, form?_eq, hopened, openForms_body]
        exact Bool.and_eq_false_imp.mpr fun _ => decide_eq_false (Nat.succ_ne_zero _)
      refine taken_more hsegments hcalm (by rw [hrest])
        (taken_char hmode hsegments hcalm hrest (by decide) (by decide) (by decide) fun _ => hkept) ?_
      intro t hsegments hcalm hrest hshift
      refine ih hsegments hcalm hrest ?_
      rw [hshift, hopened]
      exact openForms_closing m opener p outside
  | case9 => exact ⟨s, .refl, hopened ▸ .refl env s⟩
  | case10 => exact ⟨s, .refl, hopened ▸ .refl env s⟩
  | case11 opened c cs _ _ hplain hopening hclosing hothers n left hrun ih =>
      rw [hrun] at ih
      simp only [Bool.not_eq_true, Bool.or_eq_false_iff, beq_eq_false_iff_ne] at hplain hopening hclosing hothers
      have hmeaning : (isIntroducer c || isTrigger c) = false := by rw [hplain.1.1.1, hplain.1.1.2]; rfl
      have hevent : literalEvent c = .other := by
        refine literalEvent_other ⟨hopening, hclosing⟩ ?_
        simpa only [Bool.or_eq_false_iff, beq_eq_false_iff_ne] using hothers
      have hfirst := taken_char hmode hsegments hcalm hrest hmeaning hothers.1.1.1 hothers.1.2 (absurd · hclosing)
      rw [hevent] at hfirst
      refine taken_more hsegments hcalm (by rw [hrest]) hfirst ?_
      exact fun hsegments hcalm hrest hsame => ih hsegments hcalm hrest (hsame.trans hopened)

/-- A run that takes something starts where no rule claims a place. -/
theorem plainRun_unclaimed {inHead inBody : Bool} {c : Char} {cs : List Char}
    (h : 0 < (plainRun inHead inBody 0 (c :: cs)).1) : fullRule env s ⟨segment, c :: cs⟩ c = .declined := by
  generalize hline : c :: cs = line at h
  unfold plainRun at h
  split at h
  · exact absurd h (Nat.lt_irrefl 0)
  · exact absurd h (Nat.lt_irrefl 0)
  · obtain ⟨rfl, rfl⟩ := List.cons.inj hline
    split at h
    · rename_i hd
      exact fullRule_pair hd
    · exact absurd h (Nat.lt_irrefl 0)
  · obtain ⟨rfl, rfl⟩ := List.cons.inj hline
    split at h
    · exact absurd h (Nat.lt_irrefl 0)
    rename_i hplain
    simp only [Bool.not_eq_true, Bool.or_eq_false_iff] at hplain
    have hmeaning : (isIntroducer c || isTrigger c) = false := by rw [hplain.1.1.1, hplain.1.1.2]; rfl
    split at h
    · rename_i hbrace
      obtain rfl := eq_of_beq hbrace
      exact fullRule_plain hmeaning (by decide) (by decide) (absurd · (by decide))
    split at h
    · rw [decide_eq_false (Nat.lt_irrefl 0), Bool.and_false, if_neg Bool.false_ne_true] at h
      exact absurd h (Nat.lt_irrefl 0)
    rename_i hclosing
    split at h
    · exact absurd h (Nat.lt_irrefl 0)
    · rename_i hothers
      simp only [Bool.not_eq_true, Bool.or_eq_false_iff, beq_eq_false_iff_ne] at hothers hclosing
      exact fullRule_plain hmeaning hothers.1.1.1 hothers.1.2 (absurd · hclosing)

/-- A run takes a backslash before an introducer. -/
theorem plainRun_pair {inHead inBody : Bool} {opened : Nat} {c : Char} {cs : List Char}
    (h : (plainRun inHead inBody opened (c :: cs)).1 = 0) (d : Char) (ds : List Char)
    (heq : c :: cs = '\\' :: d :: ds) : isIntroducer d = false := by
  rw [heq, plainRun] at h
  split at h
  · exact absurd h (Nat.succ_ne_zero _)
  · rename_i hd
    exact Bool.not_eq_true _ ▸ hd

theorem openBraces_overflow (n : Nat) (s : State) : (openBraces n s).overflow = s.overflow := by
  induction n generalizing s with
  | zero => rfl
  | succ n ih => exact ih (s.shift (.opening .brace))

/-- A run is taken at once. -/
theorem plainText_taken {c : Char} {cs : List Char}
    (h : 0 < (plainRun s.nesting.inHead s.nesting.inBody 0 (c :: cs)).1) :
    Taken env (openForms (plainRun s.nesting.inHead s.nesting.inBody 0 (c :: cs)).2 s.nesting.forms) s
      (plainText env s ⟨segment, c :: cs⟩ c) (plainRun s.nesting.inHead s.nesting.inBody 0 (c :: cs)).1 := by
  rw [plainText]
  dsimp only
  rw [if_pos h, ← forms_openBraces]
  obtain ⟨hparts, hplace, hsegments⟩ := openBraces_same (plainRun s.nesting.inHead s.nesting.inBody 0 (c :: cs)).2 s
  refine .text env s (((openBraces (plainRun s.nesting.inHead s.nesting.inBody 0 (c :: cs)).2 s).pushLeaf env.source
    .text (s.place + (plainRun s.nesting.inHead s.nesting.inBody 0 (c :: cs)).1)).shift .other) h hsegments rfl ?_
    (openBraces_overflow _ s)
  show .done (leafOf _ _ (openBraces _ s).place _) :: (openBraces _ s).parts = _
  rw [hparts, hplace]

/-- Where a run takes nothing, a single character is taken either way. -/
theorem plainText_char {c : Char} {cs : List Char}
    (h : (plainRun s.nesting.inHead s.nesting.inBody 0 (c :: cs)).1 = 0) :
    plainText env s ⟨segment, c :: cs⟩ c = plainChar env s ⟨segment, c :: cs⟩ c := by
  rw [plainChar_char (plainRun_pair h), plainText]
  dsimp only
  rw [h, if_neg (Nat.lt_irrefl 0)]

theorem plainChar_alike {u v : State} (h : u.Alike v) (site : Site) (c : Char) :
    (plainChar env u site c).Alike (plainChar env v site c) := by
  unfold plainChar
  rw [h.place]
  split
  · split
    · exact (h.pushLeaf _ _).shift _
    · exact (h.shift _).pushLeaf _ _
  · exact (h.shift _).pushLeaf _ _

theorem nextSegment_alike {u v : State} (h : u.Alike v) (segment : Span) (later : List Span) :
    (nextSegment env u segment later).Alike (nextSegment env v segment later) := by
  unfold nextSegment
  split
  · exact ⟨rfl, h.place, h.forms, h.parts, h.overflow⟩
  · rename_i next rest
    have hnext : ({ u with segments := next :: rest } : State).Alike { v with segments := next :: rest } :=
      ⟨rfl, h.place, h.forms, h.parts, h.overflow⟩
    dsimp only
    split
    · exact ((hnext.push _).shift _).jump _
    · exact (hnext.shift _).jump _

theorem inBody_forms {n : Nesting} (h : n.inBody = true) :
    ∃ opener p outside, n.forms = .body opener p :: outside := by
  rw [Nesting.inBody, form?_eq] at h
  split at h
  · rename_i opener p hform
    obtain ⟨outside, hforms⟩ := List.head?_eq_some_iff.mp hform
    exact ⟨opener, p, outside, hforms⟩
  · exact absurd h Bool.false_ne_true

/-- **A step that takes text in runs is made in steps that take single characters.** -/
theorem step_reaches {u v : State} (h : u.Alike v) (hmode : env.mode = .full)
    (hsegments : v.segments = segment :: later) : ∃ t, Reaches env u t ∧ t.Alike (step env v segment later) := by
  have hone : Reaches env u (stepBy charText env u segment later) :=
    .single ⟨segment, later, h.segments.trans hsegments, rfl⟩
  unfold stepBy charText at hone
  unfold step
  rw [h.place, h.overflow, hmode] at hone
  rw [hmode]
  by_cases hstop : segment.stop ≤ v.place
  · rw [if_pos hstop] at hone ⊢
    exact ⟨_, hone, nextSegment_alike h segment later⟩
  rw [if_neg hstop] at hone ⊢
  by_cases hover : v.overflow.isSome = true
  · rw [if_pos hover] at hone ⊢
    exact ⟨_, hone, h.pushLeaf _ _⟩
  rw [if_neg hover] at hone ⊢
  have hcalm : v.overflow = none := by simpa using hover
  dsimp only at hone ⊢
  cases hrest : env.source.slice v.place segment.stop with
  | nil =>
      rw [hrest] at hone
      exact ⟨_, hone, rfl, rfl, h.forms, h.parts, rfl⟩
  | cons c cs =>
      rw [hrest] at hone
      dsimp only at hone ⊢
      have hverdict : (fullRule env u ⟨segment, c :: cs⟩ c).Alike (fullRule env v ⟨segment, c :: cs⟩ c) :=
        fullRule_alike h c
      -- a run takes nothing where a rule does not decline
      have hnone : fullRule env v ⟨segment, c :: cs⟩ c ≠ .declined →
          (plainRun v.nesting.inHead v.nesting.inBody 0 (c :: cs)).1 = 0 :=
        fun hclaims => Nat.eq_zero_of_not_pos fun hpos => hclaims (plainRun_unclaimed hpos)
      generalize fullRule env u ⟨segment, c :: cs⟩ c = verdict at hone hverdict
      generalize hv : fullRule env v ⟨segment, c :: cs⟩ c = verdict' at hverdict
      cases hverdict with
      | claimed states =>
          dsimp only at hone ⊢
          split
          · rename_i hbrace
            rw [if_pos hbrace] at hone
            exact ⟨_, hone, states⟩
          · rename_i hbrace
            rw [if_neg hbrace] at hone
            exact ⟨_, hone, states.shift _⟩
      | tooDeep =>
          have hchar : plainText env (v.note (some v.place)) ⟨segment, c :: cs⟩ c =
              plainChar env (v.note (some v.place)) ⟨segment, c :: cs⟩ c := 
            plainText_char (hnone (by rw [hv]; exact Verdict.noConfusion))
          dsimp only at hone ⊢
          rw [hchar]
          exact ⟨_, hone, plainChar_alike (h.note _) _ _⟩
      | declined =>
          dsimp only at hone ⊢
          by_cases hrun : (plainRun v.nesting.inHead v.nesting.inBody 0 (c :: cs)).1 = 0
          · rw [plainText_char hrun]
            exact ⟨_, hone, plainChar_alike h _ _⟩
          · have hforms : u.nesting.forms = openForms 0 v.nesting.forms := h.forms
            obtain ⟨t, hreach, htaken⟩ := plainRun_reaches hmode inBody_forms (h.segments.trans hsegments)
              (h.overflow.trans hcalm) (h.place ▸ hrest) hforms
            exact ⟨t, hreach, Taken.alike h htaken (plainText_taken (Nat.pos_of_ne_zero hrun))⟩

/-! ## Whole regions -/

/-- However far a region is read with text taken in runs, it can be read with single characters. -/
theorem readRegion_reaches {u v : State} (h : u.Alike v) (hmode : env.mode = .full) (fuel : Nat) :
    ∃ t, Reaches env u t ∧ t.Alike (readRegion env fuel v) := by
  induction fuel generalizing u v with
  | zero => exact ⟨u, .refl, h⟩
  | succ fuel ih =>
      unfold readRegion
      split
      · exact ⟨u, .refl, h⟩
      · rename_i segment later hsegments
        obtain ⟨t, hreach, halike⟩ := step_reaches h hmode hsegments
        obtain ⟨t', hon, hend⟩ := ih halike
        exact ⟨t', hreach.trans hon, hend⟩

theorem stepsAhead_start (segments : List Span) :
    stepsAhead (State.start segments).place (State.start segments).segments ≤ regionSteps segments := by
  cases segments with
  | nil => exact Nat.zero_le _
  | cons segment later =>
      rw [regionSteps]
      show segment.stop - segment.start + regionSteps later ≤ _
      omega

/-- The same is left when a region has been read. -/
theorem readRegionBy_alike (hmode : env.mode = .full) (segments : List Span) :
    (readRegionBy charText env (regionSteps segments) (.start segments)).Alike
      (readRegion env (regionSteps segments) (.start segments)) := by
  obtain ⟨t, hreach, halike⟩ := readRegion_reaches (.refl (.start segments)) hmode (regionSteps segments)
  have hend : t.segments = [] := halike.segments.trans (readRegion_done (stepsAhead_start segments))
  rwa [readRegionBy_reaches hreach hend (stepsAhead_start segments)]

theorem closeCommands_add (env : Env) (m n : Nat) (s : State) :
    closeCommands env (m + n) s = closeCommands env n (closeCommands env m s) := by
  induction m generalizing s with
  | zero => rw [Nat.zero_add, closeCommands]
  | succ m ih => rw [Nat.add_right_comm, closeCommands_succ, ih, closeCommands_succ]

/-- Passes enough for one of two states that are alike are enough for the other. -/
theorem closed_alike_length (env : Env) {u v : State} (h : u.Alike v) (hv : v.Paired) :
    (closeCommands env u.parts.length u).Alike (closeCommands env v.parts.length v) := by
  have hu : u.Paired := hv.congr (by rw [← commandParts_fuse, h.parts, commandParts_fuse]) h.forms
  have hmore : lastBody? (closeCommands env v.parts.length u).parts = none := by
    have hclosed : (closeCommands env v.parts.length u).Alike (closeCommands env v.parts.length v) :=
      closeCommands_alike h v.parts.length
    rcases findWaiting?_alike hclosed.parts with ⟨hnone, -⟩ | ⟨_, _, _, _, _, -, hsome, -, -⟩
    · exact hnone
    · exact absurd ((closeCommands_root env hv).1.symm.trans hsome) (Option.some_ne_none _).symm
  have hsame : closeCommands env u.parts.length u = closeCommands env v.parts.length u := by
    rw [← closeCommands_none (closeCommands_root env hu).1 v.parts.length, ← closeCommands_add, Nat.add_comm,
      closeCommands_add, closeCommands_none hmore]
  rw [hsame]
  exact closeCommands_alike h v.parts.length

/-- A region is read in the same way, if those inside it are. -/
theorem readInlineBy_charText (src : Source) (nested : Span → Mode → Limited (List Node)) (segments : List Span)
    (mode : Mode) : readInlineBy charText src nested segments mode = readInline src nested segments mode := by
  unfold readInlineBy readInline
  dsimp only
  generalize henv : Env.mk src mode ((segments.getLast?.map Span.stop).getD 0)
    (isAllWhite (src.after ((segments.getLast?.map Span.stop).getD 0))) nested = env
  cases mode with
  | template =>
      have hruns : charText env = plainText env := by
        rw [charText, ← henv]
      rw [readRegionBy_runs hruns]
  | full =>
      have hmode : env.mode = .full := by rw [← henv]
      have halike := closed_alike_length env (readRegionBy_alike hmode segments)
        (readRegion_paired (.start segments) _)
      rw [settle_congr src halike.parts, halike.overflow]

/-- **Regions come out the same when text is taken character by character**, whatever the text, the stretches and the
depth. -/
theorem inlineNodesBy_charText (src : Source) (levels : Nat) (segments : List Span) (mode : Mode) :
    inlineNodesBy charText src levels segments mode = inlineNodes src levels segments mode :=
  inlineNodesBy_eq (readInlineBy_charText src) levels segments mode

end ComponentMarkup.Markup
