import ComponentMarkup.Proofs.Markup.BlockTiling
import ComponentMarkup.Proofs.Markup.SoleCommand

/-!
# Regions that are one command

A region that starts with a command, the bodies of which reach to its end and hide no braces, is read as that command
and nothing else: a command is open from the first step on, every step keeps the region one command, and at the end no
body can be open.

* `step_isOne`, `readRegion_isOne` — a region that is one command so far is read as one command;
* `StartsCommand` — a stretch that starts with a command which reaches to its end;
* `StartsCommand.reads` — such a stretch is read as a single command.
-/

namespace ComponentMarkup.Markup

open ComponentMarkup.Text ComponentMarkup.Tree

variable {env : Env} {src : Source} {s : State} {kind : MarkupKind}

/-! ## Steps -/

variable {lo : Nat} {segment : Span} {later : List Span}

/-- Behind a line the text ends, or a line end stands. -/
theorem Broken.behind {stop place : Nat} (h : Broken src (segment :: later))
    (hahead : Ahead stop place (segment :: later)) : (src.slice segment.stop stop).head?.all isNewline = true := by
  cases later with
  | nil =>
      obtain ⟨-, -, hlast⟩ := hahead
      rw [show segment.stop = stop from hlast, Source.slice_self]
      rfl
  | cons next later =>
      obtain ⟨-, ⟨hnext, hwithin⟩, -⟩ := hahead
      obtain ⟨hne, hends⟩ := h.1
      rw [← src.slice_append hnext (Nat.le_trans hwithin.1 hwithin.2.le)]
      cases hgap : src.slice segment.stop next.start with
      | nil => exact absurd hgap hne
      | cons c cs => exact hends c (hgap ▸ List.mem_cons_self)

/-- A line end is no other character. -/
theorem ne_of_isNewline {c d : Char} (h : isNewline c = true) (hd : isNewline d = false) : c ≠ d := by
  rintro rfl
  exact absurd (h.symm.trans hd) (by decide)

/-- Whether a region is one command so far depends on its parts, its nesting and its place. -/
theorem State.IsOne.congr {s' : State} (h : s.IsOne env kind) (hparts : s'.parts = s.parts)
    (hnesting : s'.nesting.forms = s.nesting.forms) (hplace : s'.place = s.place) : s'.IsOne env kind := by
  rcases h with ⟨depth, hin, htext⟩ | ⟨hend, hcommand⟩
  · exact .inl ⟨depth, hin.congr hparts hnesting, hplace ▸ htext⟩
  · exact .inr ⟨hplace ▸ hend, hparts ▸ hcommand⟩

/-- The next line is begun in the same body. -/
theorem nextSegment_isOne (he : env.Sound) (hahead : Ahead env.stop s.place (segment :: later))
    (hbroken : Broken env.source (segment :: later)) (hone : s.IsOne env kind) (hplace : segment.stop ≤ s.place) :
    (nextSegment env s segment later).IsOne env kind := by
  cases later with
  | nil => exact hone.congr rfl rfl rfl
  | cons next later =>
      obtain ⟨hle, ⟨hnext, hwithin⟩, hlast⟩ := hahead
      obtain ⟨⟨hne, hends⟩, -⟩ := hbroken
      have hstop := Nat.le_trans hwithin.1 hwithin.2.le
      have heq : s.place = segment.stop := Nat.le_antisymm hle hplace
      have hgap : segment.stop < next.start := by
        refine Nat.lt_of_le_of_ne hnext fun hsame => hne ?_
        rw [← hsame, Source.slice_self]
      rcases hone with ⟨depth, hin, htext⟩ | ⟨hend, -⟩
      · refine .inl ⟨depth, ?_, ?_⟩
        · unfold nextSegment
          dsimp only
          rw [if_pos hgap]
          exact (hin.push (leafOf env.source .newline segment.stop next.start)).congr rfl rfl
        · show InBody depth (env.source.slice next.start env.stop)
          have hlength := env.source.length_slice (i := segment.stop) (Nat.le_trans hstop he.stop_le)
          have hsplit := env.source.slice_append hnext hstop
          have hpassed := htext.drop (n := next.start - segment.stop) ?_ ?_
          · rwa [heq, Source.slice_drop, Nat.add_sub_cancel' hnext] at hpassed
          · rw [heq, ← hsplit, List.length_append, hlength]
            exact Nat.le_add_right _ _
          · intro c hc
            rw [heq, ← hsplit, ← hlength, List.take_left] at hc
            exact ⟨ne_of_isNewline (hends c hc) (by decide), ne_of_isNewline (hends c hc) (by decide),
              ne_of_isNewline (hends c hc) (by decide)⟩
      · omega

theorem nextSegment_broken (hbroken : Broken env.source (segment :: later)) :
    Broken env.source (nextSegment env s segment later).segments := by
  cases later with
  | nil => trivial
  | cons next later =>
      unfold nextSegment
      dsimp only
      split
      · exact hbroken.2
      · exact hbroken.2

/-- **A step keeps the region one command**, if nesting does not get too deep. -/
theorem step_isOne (he : env.Sound) (hmode : env.mode = .full) (hahead : Ahead env.stop s.place (segment :: later))
    (hbroken : Broken env.source (segment :: later)) (hsegments : s.segments = segment :: later)
    (hone : s.IsOne env kind) (hcalm : s.overflow = none) (hnext : (step env s segment later).overflow = none) :
    (step env s segment later).IsOne env kind ∧ Broken env.source (step env s segment later).segments := by
  unfold step at hnext ⊢
  split
  · rename_i hplace
    exact ⟨nextSegment_isOne he hahead hbroken hone hplace, nextSegment_broken hbroken⟩
  rename_i hplace
  have hlt : s.place < segment.stop := Nat.lt_of_not_le hplace
  have hkept : ∀ s', s.Leads env kind s' → s'.overflow = none → s'.IsOne env kind ∧ Broken env.source s'.segments := by
    intro s' hleads hroom
    obtain ⟨hone', hsame⟩ := hleads hroom
    rw [hsame, hsegments]
    exact ⟨hone', hbroken⟩
  rcases hone with ⟨depth, hin, htext⟩ | ⟨hend, -⟩
  · rw [if_neg hplace, hcalm, hmode] at hnext
    rw [hcalm, hmode]
    simp only [Option.isSome_none, Bool.false_eq_true, if_false] at hnext ⊢
    cases hrest : env.source.slice s.place segment.stop with
    | nil =>
        have hlength := env.source.length_slice (i := s.place) (Nat.le_trans hahead.stop_le he.stop_le)
        rw [hrest, List.length_nil] at hlength
        omega
    | cons c cs =>
        have ht : (Site.mk segment (c :: cs)).Sound env s := ⟨hlt, hahead.stop_le, hrest.symm⟩
        obtain ⟨hleads, hplain⟩ := fullRule_leads ht he hin htext hcalm (hbroken.behind hahead) rfl
        rw [hrest] at hnext
        dsimp only at hnext ⊢
        cases hverdict : fullRule env s ⟨segment, c :: cs⟩ c with
        | claimed s' =>
            rw [hverdict] at hleads hnext
            dsimp only at hnext ⊢
            split
            · rename_i hbrace
              rw [if_pos hbrace] at hnext
              exact hkept s' hleads hnext
            · rename_i hother
              rw [if_neg hother] at hnext
              obtain ⟨hone', hbroken'⟩ := hkept s' hleads hnext
              exact ⟨hone'.congr rfl rfl rfl, hbroken'⟩
        | declined =>
            rw [hverdict] at hnext
            exact hkept _ (hplain hverdict) hnext
        | tooDeep =>
            rw [hverdict] at hleads
            exact hleads.elim
  · have hstop := hahead.stop_le
    omega

/-- Once nesting got too deep, it stays so. -/
theorem readRegion_overflow (fuel : Nat) (h : s.overflow.isSome = true) :
    (readRegion env fuel s).overflow.isSome = true := by
  induction fuel generalizing s with
  | zero => exact h
  | succ fuel ih =>
      rw [readRegion]
      split
      · exact h
      · refine ih ?_
        unfold step
        split
        · unfold nextSegment
          split
          · exact h
          · dsimp only
            split <;> exact h
        · exact h

theorem readRegion_calm {fuel : Nat} (h : (readRegion env fuel s).overflow = none) : s.overflow = none := by
  refine Option.not_isSome_iff_eq_none.mp fun hdeep => ?_
  have hstays := (readRegion_overflow fuel hdeep : (readRegion env fuel s).overflow.isSome = true)
  rw [h] at hstays
  exact absurd hstays Bool.false_ne_true

/-- At the end of a region no body can be open, since its brace would be missing. -/
theorem State.IsOne.isCommand (h : s.IsOne env kind) (hahead : Ahead env.stop s.place s.segments)
    (hnone : s.segments = []) : s.IsCommand env kind := by
  refine h.resolve_left ?_
  rintro ⟨depth, -, htext⟩
  rw [hnone] at hahead
  refine htext.ne_nil ?_
  rw [show s.place = env.stop from hahead, Source.slice_self]

/-- **A region that is one command so far is read as one command**, if nesting does not get too deep. -/
theorem readRegion_isOne {fuel : Nat} (he : env.Sound) (hmode : env.mode = .full) (hs : s.Sound env lo)
    (hbroken : Broken env.source s.segments) (hone : s.IsOne env kind)
    (hend : (readRegion env fuel s).overflow = none) (hfuel : stepsLeft env s ≤ fuel) :
    (readRegion env fuel s).IsCommand env kind := by
  induction fuel generalizing s with
  | zero =>
      refine hone.isCommand hs.ahead (List.length_eq_zero_iff.mp ?_)
      unfold stepsLeft at hfuel
      omega
  | succ fuel ih =>
      have hhere := readRegion_calm hend
      have hahead := hs.ahead
      rw [readRegion] at hend ⊢
      cases hsegments : s.segments with
      | nil => exact hone.isCommand hs.ahead hsegments
      | cons segment later =>
          rw [hsegments] at hend hbroken hahead
          obtain ⟨hsound, hless⟩ := step_sound he hs hsegments
          obtain ⟨hone', hbroken'⟩ := step_isOne he hmode hahead hbroken hsegments hone hhere (readRegion_calm hend)
          exact ih hsound hbroken' hone' hend (by omega)

/-! ## The start of a region -/

/-- The kind of node that the sigil of a command makes it. -/
def sigilKind (c : Char) : MarkupKind :=
  if c == '@' then .inlineComponent else .interpolation

/-- A stretch that starts with a sigil and a head on its first line, behind which there is nothing but bodies that hide
no braces. -/
structure StartsCommand (src : Source) (s : Span) (c : Char) (head : Head) : Prop where
  sigil : c = '@' ∨ c = '#'
  first : (src.slice s.start s.stop).head? = some c
  read : ∃ line, (lineSpans src s).head? = some line ∧ Head.read? src s.start 1 line.stop = some head
  named : head.name.isSome = true ∨ c = '@' ∧ src.slice head.stop s.stop ≠ []
  bodies : Bodies (src.slice head.stop s.stop)
  clear : hidesNothing (src.slice head.stop s.stop) = true

/-- The rule for the sigil of a command. -/
theorem fullRule_sigil {c : Char} (h : c = '@' ∨ c = '#') :
    fullRule env s site c = commandRule env s site (sigilKind c) 1 := by
  rcases h with rfl | rfl <;> rfl

/-- The first body of a command at the start of a region. -/
theorem State.InCommand.start (hstart : s.parts = [] ∧ s.nesting = .root) (kind : MarkupKind) (nodes : List Node)
    (span : Span) (brace : Nat) :
    (((s.shift .introducer).pushWaiting (.command kind nodes) span).openBody brace).InCommand kind 0 := by
  obtain ⟨hparts, hnesting⟩ := hstart
  refine ⟨?_, ⟨nodes, span, s.level, ?_⟩, {}, ?_, rfl⟩
  · show .body :: .introducer :: commandParts s.parts = _
    rw [hparts]
    rfl
  · show (_ :: _ :: s.parts).getLast? = _
    rw [hparts]
    rfl
  · show (((s.nesting.shift .introducer).shift (.opening .brace)).forms) = _
    rw [hnesting]
    rfl

/-- A brace with nothing hidden behind it opens no verbatim body. -/
theorem no_verbatim {es rest : List Char} (hclear : hidesNothing ('{' :: (es ++ rest)) = true) :
    (List.take 2 ('{' :: es) == ['{', '|']) = false := by
  cases es with
  | nil => rfl
  | cons e es =>
      refine Bool.eq_false_iff.mpr fun heq => ?_
      obtain rfl : e = '|' := by simpa using heq
      exact absurd (hidesNothing_cons (by decide) hclear).2.1 (by simp [mayHideTogether])

/-- **A command at the start of a region** is complete, or its first body is open. -/
theorem commandRule_isOne {c : Char} {head : Head} (he : env.Sound) (hsegment : segment.start = s.place)
    (hstart : s.parts = [] ∧ s.nesting = .root) (hstop : segment.stop ≤ env.stop)
    (hline : (env.source.slice segment.stop env.stop).head?.all isNewline = true)
    (h : StartsCommand env.source ⟨s.place, env.stop⟩ c head)
    (hread : Head.read? env.source s.place 1 segment.stop = some head) :
    ∃ s', commandRule env s ⟨segment, env.source.slice s.place segment.stop⟩ (sigilKind c) 1 = .claimed s' ∧
      s'.IsOne env (sigilKind c) ∧ s'.segments = s.segments := by
  obtain ⟨hlt, hge, hle, -⟩ := Head.read?_run hread (Nat.le_trans hstop he.stop_le)
  have hbefore : Site.before? env ⟨segment, env.source.slice s.place segment.stop⟩ s.place = none :=
    if_neg (by rw [hsegment]; exact Nat.lt_irrefl _)
  have hnamed : (head.name.isNone && sigilKind c != .inlineComponent) = false := by
    rcases h.named with hname | ⟨rfl, -⟩
    · rw [Option.isNone_eq_false_iff.mpr hname]
      rfl
    · exact Bool.and_false _
  have hsplit := env.source.slice_append hle hstop
  have hbodies := h.bodies
  have hclear := h.clear
  unfold commandRule
  simp only [hbefore, Option.any_none, Bool.false_eq_true, if_false, hread, hnamed]
  generalize hmore : env.source.slice head.stop env.stop = more at hbodies hclear
  cases hbodies with
  | nil =>
      -- the command has no body and ends where the region does
      rw [hmore] at hsplit
      have hrest := (List.append_eq_nil_iff.mp hsplit).1
      have hname : head.name.isNone = false :=
        Option.isNone_eq_false_iff.mpr (h.named.resolve_right fun hbody => hbody.2 hmore)
      have hend : head.stop = env.stop := by
        have hlength := env.source.length_slice (i := head.stop) he.stop_le
        rw [hmore, List.length_nil] at hlength
        omega
      have hnone : ∀ d : Char, ((none : Option Char) == some d) = false := fun _ => rfl
      have hverbatim : (([] : List Char) == ['{', '|']) = false := rfl
      simp only [hrest, hname, List.head?_nil, List.take_nil, hnone, hverbatim, Bool.false_and, Bool.and_false,
        Bool.false_eq_true, if_false]
      refine ⟨_, rfl, .inr ⟨?_, head.nodes env.source, ?_⟩, ?_⟩
      · exact hend
      · show _ :: s.parts = _
        rw [hstart.1]
      · rfl
  | @cons ds n hbody hothers =>
      obtain ⟨es, hrest, hds⟩ := @line_cons env ⟨segment, []⟩ hline '{' _ _ (by decide) (hsplit.trans hmore)
      have hverbatim := no_verbatim (hds ▸ hclear)
      have hdepth : ¬ 2 * maxDepth ≤ s.nesting.depth := by
        rw [hstart.2]
        decide
      simp only [hrest, hverbatim, List.head?_cons, beq_self_eq_true, Bool.true_and, decide_eq_false hdepth,
        Bool.false_eq_true, if_false, if_true]
      refine ⟨_, rfl, .inl ⟨0, .start hstart _ _ _ _, ?_⟩, rfl⟩
      show InBody 0 (env.source.slice (head.stop + 1) env.stop)
      rw [env.source.slice_tail hmore]
      exact ⟨⟨n, hbody, hothers⟩, (hidesNothing_cons (by decide) hclear).2.2⟩

/-- Closing commands leaves what was recorded. -/
theorem closeCommands_overflow (fuel : Nat) (s : State) : (closeCommands env fuel s).overflow = s.overflow := by
  induction fuel generalizing s with
  | zero => rfl
  | succ fuel ih =>
      rw [closeCommands]
      split
      · rfl
      · split
        · rw [ih]
          unfold State.finishCommand
          split <;> rfl
        · rw [ih]
          unfold State.degradeCommand
          split
          · rfl
          · split <;> rfl

/-- The first step reads the command that a region starts with. -/
theorem step_start {c : Char} {head : Head} (he : env.Sound) (hmode : env.mode = .full) (hcalm : s.overflow = none)
    (hstart : s.parts = [] ∧ s.nesting = .root) (hahead : Ahead env.stop s.place (segment :: later))
    (hbroken : Broken env.source (segment :: later)) (hsegment : segment.start = s.place)
    (h : StartsCommand env.source ⟨s.place, env.stop⟩ c head)
    (hread : Head.read? env.source s.place 1 segment.stop = some head) :
    (step env s segment later).IsOne env (sigilKind c) ∧ (step env s segment later).segments = s.segments := by
  have hstop := hahead.stop_le
  obtain ⟨hlt, -⟩ := Head.read?_run hread (Nat.le_trans hstop he.stop_le)
  obtain ⟨s', hclaimed, hone, hsame⟩ := commandRule_isOne he hsegment hstart hstop (hbroken.behind hahead) h hread
  have hsplit := env.source.slice_append (i := s.place) (Nat.le_of_succ_le (Nat.le_of_lt hlt)) hstop
  have hbrace : (c == '}' || c == '{') = false := by
    rcases h.sigil with rfl | rfl <;> rfl
  have hplace : ¬ segment.stop ≤ s.place := by omega
  unfold step
  rw [if_neg hplace, hcalm, hmode]
  simp only [Option.isSome_none, Bool.false_eq_true, if_false]
  cases hrest : env.source.slice s.place segment.stop with
  | nil =>
      have hlength := env.source.length_slice (i := s.place) (Nat.le_trans hstop he.stop_le)
      rw [hrest, List.length_nil] at hlength
      omega
  | cons d ds =>
      have hfirst := h.first
      rw [← hsplit, hrest] at hfirst
      obtain rfl : d = c := Option.some.inj hfirst
      rw [hrest] at hclaimed
      dsimp only
      rw [fullRule_sigil h.sigil, hclaimed]
      dsimp only
      rw [hbrace, if_neg Bool.false_ne_true]
      exact ⟨hone.congr rfl rfl rfl, hsame⟩

/-- **A region that starts with a command which reaches to its end is that command.** -/
theorem regionEnd_isCommand {c : Char} {head : Head} {s : Span} (h : StartsCommand src s c head) (hle : s.start ≤ s.stop)
    (hstop : s.stop ≤ src.size) (levels : Nat)
    (hcalm : (regionEnd src levels (lineSpans src s) .full).overflow = none) :
    (regionEnd src levels (lineSpans src s) .full).IsCommand (regionEnv src levels (lineSpans src s) .full)
      (sigilKind c) := by
  have hregion := lineSpans_region hle hstop
  obtain ⟨line, hline, hread⟩ := h.read
  obtain ⟨later, hlines⟩ : ∃ later, lineSpans src s = line :: later := List.head?_eq_some_iff.mp hline
  have hend : (regionEnv src levels (lineSpans src s) .full).stop = s.stop := hregion.last_stop
  have hplace : (State.start (lineSpans src s)).place = s.start := hregion.head_start
  have hbroken : Broken src (lineSpans src s) := lineSpans_broken src s
  have he : (regionEnv src levels (lineSpans src s) .full).Sound := ⟨hend ▸ hstop, nestedRegions_run src levels⟩
  have hfirst : line.start = s.start := by
    have hstart := hregion.head_start
    rwa [hline] at hstart
  unfold regionEnd at hcalm ⊢
  have hsteps := stepsLeft_start (show (regionEnv src levels (lineSpans src s) .full).stop = _ from rfl)
  obtain ⟨fuel, hfuel⟩ := Nat.exists_eq_add_of_lt (Nat.zero_lt_of_lt hsteps)
  rw [Nat.zero_add] at hfuel
  rw [hfuel] at hcalm hsteps ⊢
  generalize henv : regionEnv src levels (lineSpans src s) .full = env at *
  have hsource : env.source = src := by rw [← henv]; rfl
  have hmode : env.mode = .full := by rw [← henv]; rfl
  subst hsource
  have hsound : (State.start (lineSpans env.source s)).Sound env s.start := .start (hend ▸ hregion)
  have hahead : Ahead env.stop (State.start (lineSpans env.source s)).place (line :: later) := hlines ▸ hsound.ahead
  have hone := step_start he hmode (s := State.start (lineSpans env.source s)) rfl ⟨rfl, rfl⟩ hahead (hlines ▸ hbroken)
    (hfirst.trans hplace.symm) (c := c) (by rw [hplace, hend]; exact h) (by rw [hplace]; exact hread)
  obtain ⟨hnext, hless⟩ := step_sound he hsound hlines
  have hread : ∀ fuel, readRegion env (fuel + 1) (State.start (lineSpans env.source s)) =
      readRegion env fuel (step env (State.start (lineSpans env.source s)) line later) := by
    intro fuel
    rw [readRegion, show (State.start (lineSpans env.source s)).segments = line :: later from hlines]
  rw [hread] at hcalm ⊢
  refine readRegion_isOne he hmode hnext ?_ hone.1 hcalm (by omega)
  rw [hone.2]
  exact hbroken

/-- A stretch is read as a single command. -/
def ReadsCommand (src : Source) (s : Span) : Prop :=
  (readInlineContent src s).value.isMarkup .inline = true ∧
    ∃ command, (readInlineContent src s).value.children = [command] ∧ command.span = s ∧
      (command.isMarkup .inlineComponent = true ∨ command.isMarkup .interpolation = true)

/-- **A stretch that is one command for the scan of braces is read as one command**, if nesting does not get too
deep. -/
theorem StartsCommand.reads {c : Char} {head : Head} {s : Span} (h : StartsCommand src s c head)
    (hle : s.start ≤ s.stop) (hstop : s.stop ≤ src.size) (hcalm : (readInlineContent src s).overflow = none) :
    ReadsCommand src s := by
  have hnodes := inlineNodes_eq src maxDepth (lineSpans src s) .full
  have hvalue : (readInlineContent src s).value =
      .branchAt (.markup .inline) s.start (inlineNodes src maxDepth (lineSpans src s) .full).value := rfl
  have hflow : (inlineNodes src maxDepth (lineSpans src s) .full).overflow = none := by
    have hfirst : Limited.first (inlineNodes src maxDepth (lineSpans src s) .full).overflow none = none := hcalm
    simpa [Limited.first] using hfirst
  rw [hnodes] at hflow
  dsimp only at hflow
  rw [closeCommands_overflow] at hflow
  obtain ⟨-, nodes, hparts⟩ := regionEnd_isCommand h hle hstop maxDepth hflow
  have hspan := (readInlineContent_fits hle hstop).2
  have hsettled : (inlineNodes src maxDepth (lineSpans src s) .full).value = [.markup (sigilKind c) nodes] := by
    rw [hnodes]
    dsimp only
    rw [hparts, List.length_singleton, closeCommands, hparts]
    show settle src (regionEnd src maxDepth (lineSpans src s) .full).parts = _
    rw [hparts]
    rfl
  rw [hvalue, hsettled] at hspan
  refine ⟨?_, .markup (sigilKind c) nodes, ?_, hspan, ?_⟩
  · rw [hvalue, hsettled]
    rfl
  · rw [hvalue, hsettled]
    rfl
  · rcases h.sigil with rfl | rfl
    · exact .inl rfl
    · exact .inr rfl

end ComponentMarkup.Markup
