import ComponentMarkup.Proofs.Markup.Bodies
import Mathlib.Data.List.Basic
import Mathlib.Data.List.TakeWhile

/-!
# Rules in the body of a command

While the bodies of a command are read that hide no braces, the only command that waits is the one that the region
starts with, and the nesting counts as many braces as the scan for the end of the body does.  Every rule keeps this,
or ends the body where the scan does.

* `State.InCommand` — a state in a body of the only command of a region, with a number of literal braces open;
* `State.IsOne` — a region that is one command so far;
* `fullRule_leads`, `plainText_leads` — the rules and plain text keep it one, unless nesting gets too deep.
-/

namespace ComponentMarkup.Markup

open ComponentMarkup.Text ComponentMarkup.Tree

variable {env : Env} {src : Source} {s s' : State} {site : Site} {kind : MarkupKind} {depth : Nat}

/-- The brace that starts a body. -/
theorem openedBy?_brace {c : Char} (h : Bracket.openedBy? c = some .brace) : c = '{' := by
  unfold Bracket.openedBy? at h
  split at h
  · rename_i hc
    exact eq_of_beq hc
  · split at h
    · cases h
    · split at h
      · cases h
      · cases h

/-- In a body of the only command of a region, with a number of literal braces open. -/
structure State.InCommand (kind : MarkupKind) (depth : Nat) (s : State) : Prop where
  parts : commandParts s.parts = [.body, .introducer]
  first : ∃ head span level, s.parts.getLast? = some (.waiting ⟨.command kind head, span, level⟩)
  frames : ∃ pending, s.nesting.forms = [.body .brace pending, .head] ∧ pending.brace = depth

namespace State.InCommand

theorem congr (h : s.InCommand kind depth) (hparts : s'.parts = s.parts) (hnesting : s'.nesting.forms = s.nesting.forms) :
    s'.InCommand kind depth := by
  constructor
  · rw [hparts]
    exact h.parts
  · rw [hparts]
    exact h.first
  · rw [hnesting]
    exact h.frames

theorem parts_ne_nil (h : s.InCommand kind depth) : s.parts ≠ [] := by
  intro hnil
  have hparts := h.parts
  rw [hnil] at hparts
  exact absurd hparts (List.cons_ne_nil _ _).symm

theorem push (h : s.InCommand kind depth) (node : Node) : (s.push node).InCommand kind depth := by
  refine ⟨h.parts, ?_, h.frames⟩
  obtain ⟨head, span, level, hfirst⟩ := h.first
  exact ⟨head, span, level, (List.getLast?_cons_of_ne_nil h.parts_ne_nil).trans hfirst⟩

theorem pushLeaf (h : s.InCommand kind depth) (src : Source) (leaf : MarkupKind) (stop : Nat) :
    (s.pushLeaf src leaf stop).InCommand kind depth :=
  (h.push (leafOf src leaf s.place stop)).congr rfl rfl

theorem pushWaiting (h : s.InCommand kind depth) {opener : Opener} (hcommand : opener.isCommand = false)
    (hbody : opener.isBody = false) (span : Span) : (s.pushWaiting opener span).InCommand kind depth := by
  refine ⟨?_, ?_, h.frames⟩
  · exact (commandParts_mark hcommand hbody s.parts).trans h.parts
  · obtain ⟨head, first, level, hfirst⟩ := h.first
    exact ⟨head, first, level, (List.getLast?_cons_of_ne_nil h.parts_ne_nil).trans hfirst⟩

/-- Marks that find their partner stand above the body. -/
theorem resolve {accept : Opener → Bool} {wrapped : MarkupKind} {stop : Nat} (h : s.InCommand kind depth)
    (haccept : ∀ opener, accept opener = true → opener.isCommand = false ∧ opener.isBody = false)
    (hresolve : resolve? env s accept wrapped stop = some s') :
    s'.InCommand kind depth ∧ s'.place = stop ∧ s'.segments = s.segments := by
  obtain ⟨⟨above, d, below⟩, hfound, rfl⟩ := Option.map_eq_some_iff.mp hresolve
  have hbelow := commandParts_found haccept hfound
  obtain ⟨hsplit, -⟩ := findWaiting?_spec hfound
  have hne : below ≠ [] := by
    rintro rfl
    rw [h.parts] at hbelow
    exact absurd hbelow (List.cons_ne_nil _ _).symm
  refine ⟨⟨hbelow.trans h.parts, ?_, h.frames⟩, rfl, rfl⟩
  obtain ⟨head, span, level, hfirst⟩ := h.first
  rw [hsplit, List.getLast?_append_of_ne_nil _ (List.cons_ne_nil _ _), List.getLast?_cons_of_ne_nil hne] at hfirst
  exact ⟨head, span, level, (List.getLast?_cons_of_ne_nil hne).trans hfirst⟩

/-- A literal bracket is opened. -/
theorem opening (h : s.InCommand kind depth) (b : Bracket) :
    (s.shift (.opening b)).InCommand kind (if b = .brace then depth + 1 else depth) := by
  refine ⟨h.parts, h.first, ?_⟩
  obtain ⟨pending, hforms, rfl⟩ := h.frames
  obtain ⟨body, rest, hframes, hbody, hrest⟩ := List.map_eq_cons_iff.mp hforms
  refine ⟨pending.set b (pending.get b + 1), ?_, ?_⟩
  · show (s.nesting.shift (.opening b)).forms = _
    simp [Nesting.shift, Nesting.shiftFrames, Nesting.form?, Nesting.forms, Nesting.replace, hframes, hbody, hrest]
  · cases b <;> rfl

/-- A literal bracket other than a brace is closed. -/
theorem closing (h : s.InCommand kind depth) {b : Bracket} (hb : b ≠ .brace) :
    (s.shift (.closing b)).InCommand kind depth := by
  refine ⟨h.parts, h.first, ?_⟩
  obtain ⟨pending, hforms, rfl⟩ := h.frames
  obtain ⟨body, rest, hframes, hbody, hrest⟩ := List.map_eq_cons_iff.mp hforms
  by_cases hopen : 0 < pending.get b
  · refine ⟨pending.set b (pending.get b - 1), ?_, ?_⟩
    · show (s.nesting.shift (.closing b)).forms = _
      simp [Nesting.shift, Nesting.shiftFrames, Nesting.form?, Nesting.forms, Nesting.replace, hframes, hbody, hrest,
        hopen]
    · cases b <;> first | rfl | exact absurd rfl hb
  · refine ⟨pending, ?_, rfl⟩
    show (s.nesting.shift (.closing b)).forms = _
    simp [Nesting.shift, Nesting.shiftFrames, Nesting.form?, Nesting.forms, hframes, hbody, hrest, hopen, hb]

/-- A literal brace is closed. -/
theorem closingBrace (h : s.InCommand kind (depth + 1)) : (s.shift (.closing .brace)).InCommand kind depth := by
  refine ⟨h.parts, h.first, ?_⟩
  obtain ⟨pending, hforms, hdepth⟩ := h.frames
  obtain ⟨body, rest, hframes, hbody, hrest⟩ := List.map_eq_cons_iff.mp hforms
  have hbrace : pending.get .brace = depth + 1 := hdepth
  refine ⟨pending.set .brace depth, ?_, rfl⟩
  show (s.nesting.shift (.closing .brace)).forms = _
  simp [Nesting.shift, Nesting.shiftFrames, Nesting.form?, Nesting.forms, Nesting.replace, hframes, hbody, hrest,
    hbrace]

theorem openBraces (h : s.InCommand kind depth) (n : Nat) : (openBraces n s).InCommand kind (depth + n) := by
  induction n generalizing s depth with
  | zero => exact h
  | succ n ih =>
      rw [← Nat.add_assoc, Nat.add_right_comm]
      exact ih (h.opening .brace)

/-- A character that is no brace is read as it stands. -/
theorem literal {c : Char} (h : s.InCommand kind depth) (hopen : c ≠ '{') (hclose : c ≠ '}') :
    (s.shift (literalEvent c)).InCommand kind depth := by
  unfold literalEvent
  split
  · rename_i b hopened
    have hb : b ≠ .brace := by
      rintro rfl
      exact hopen (openedBy?_brace hopened)
    have hafter := h.opening b
    rwa [if_neg hb] at hafter
  · rename_i b _ hclosed
    refine h.closing ?_
    rintro rfl
    exact hclose (closedBy?_brace hclosed)
  · exact h.congr rfl rfl

/-- The body is open to text, and a brace ends it only if no other is open in it. -/
theorem form? (h : s.InCommand kind depth) : s.nesting.inHead = false ∧ s.nesting.inBody = true ∧
    s.nesting.closes .brace = decide (depth = 0) := by
  obtain ⟨pending, hforms, rfl⟩ := h.frames
  have hform : s.nesting.form? = some (.body .brace pending) := by
    have hhead := congrArg List.head? hforms
    rwa [Nesting.forms, List.head?_map] at hhead
  refine ⟨?_, ?_, ?_⟩
  · rw [Nesting.inHead, hform]
    rfl
  · rw [Nesting.inBody, hform]
  · rw [Nesting.closes, hform]
    rfl

end State.InCommand

/-- Between two bodies of the only command of a region, or behind the last. -/
structure State.Between (kind : MarkupKind) (s : State) : Prop where
  parts : commandParts s.parts = [.introducer]
  first : ∃ head span level, s.parts.getLast? = some (.waiting ⟨.command kind head, span, level⟩)
  frames : s.nesting.forms = [.head]

/-- The end of a body finds the body. -/
theorem State.InCommand.closeBody (h : s.InCommand kind 0) : ∃ above d below, lastBody? s.parts = some (above, d, below) ∧
    ∀ block place, ((({ s with parts := .done block :: below } : State).shift (.closing .brace)).jump place).Between
      kind := by
  obtain ⟨above, d, below, hfound, -, hbelow⟩ := lastBody?_first h.parts
  obtain ⟨hsplit, -⟩ := findWaiting?_spec hfound
  have hne : below ≠ [] := by
    rintro rfl
    exact absurd hbelow (List.cons_ne_nil _ _).symm
  refine ⟨above, d, below, hfound, fun block place => ⟨hbelow, ?_, ?_⟩⟩
  · obtain ⟨head, span, level, hfirst⟩ := h.first
    rw [hsplit, List.getLast?_append_of_ne_nil _ (List.cons_ne_nil _ _), List.getLast?_cons_of_ne_nil hne] at hfirst
    exact ⟨head, span, level, (List.getLast?_cons_of_ne_nil hne).trans hfirst⟩
  · obtain ⟨pending, hforms, hbrace⟩ := h.frames
    obtain ⟨body, rest, hframes, hbody, hrest⟩ := List.map_eq_cons_iff.mp hforms
    have hpending : pending.get .brace = 0 := hbrace
    show (s.nesting.shift (.closing .brace)).forms = _
    simp [Nesting.shift, Nesting.shiftFrames, Nesting.form?, Nesting.forms, Nesting.pop, hframes, hbody, hrest,
      hpending]

namespace State.Between

/-- Another body is opened. -/
theorem openBody (h : s.Between kind) (brace : Nat) : (s.openBody brace).InCommand kind 0 := by
  have hform : s.nesting.form? = some .head := by
    have hhead := congrArg List.head? h.frames
    rwa [Nesting.forms, List.head?_map] at hhead
  have hne : s.parts ≠ [] := by
    intro hnil
    have hparts := h.parts
    rw [hnil] at hparts
    exact absurd hparts (List.cons_ne_nil _ _).symm
  refine ⟨congrArg (CommandPart.body :: ·) h.parts, ?_, {}, ?_, rfl⟩
  · obtain ⟨head, span, level, hfirst⟩ := h.first
    exact ⟨head, span, level, (List.getLast?_cons_of_ne_nil hne).trans hfirst⟩
  · rw [← h.frames]
    show (s.nesting.shift (.opening .brace)).forms = _
    simp [Nesting.shift, Nesting.shiftFrames, hform, Nesting.forms, Nesting.push]

/-- The command is complete, and the only part. -/
theorem finishCommand (h : s.Between kind) (src : Source) :
    ∃ nodes, (s.finishCommand src).parts = [.done (.markup kind nodes)] := by
  obtain ⟨above, found, head, span, level, below, hfound, -, hbelow⟩ := lastCommand?_first h.parts
  obtain ⟨hsplit, -⟩ := findWaiting?_spec hfound
  obtain ⟨head', span', level', hfirst⟩ := h.first
  rw [hsplit, List.getLast?_append_of_ne_nil _ (List.cons_ne_nil _ _)] at hfirst
  -- below the command that is found nothing else waits, so it is the first part
  have hnil : below = [] := by
    by_contra hne
    rw [List.getLast?_cons_of_ne_nil hne] at hfirst
    have hmem : CommandPart.introducer ∈ commandParts below :=
      List.mem_filterMap.mpr ⟨_, List.mem_of_getLast? hfirst, rfl⟩
    rw [hbelow] at hmem
    exact absurd hmem List.not_mem_nil
  subst hnil
  obtain rfl : found = kind := by
    rw [List.getLast?_singleton] at hfirst
    cases hfirst
    rfl
  refine ⟨head ++ settle src above, ?_⟩
  rw [State.finishCommand, hfound]
  rfl

end State.Between

/-! ## Where a step leads -/

/-- The command is the only part of a region, and reaches to its end. -/
def State.IsCommand (env : Env) (kind : MarkupKind) (s : State) : Prop :=
  s.place = env.stop ∧ ∃ nodes, s.parts = [.done (.markup kind nodes)]

/-- A region is one command so far: a body of it is being read, with the rest of its bodies ahead, or it is
complete. -/
def State.IsOne (env : Env) (kind : MarkupKind) (s : State) : Prop :=
  (∃ depth, s.InCommand kind depth ∧ InBody depth (env.source.slice s.place env.stop)) ∨ s.IsCommand env kind

/-- A step to a state in which the region is one command so far, unless nesting gets too deep. -/
def State.Leads (env : Env) (kind : MarkupKind) (s s' : State) : Prop :=
  s'.overflow = none → s'.IsOne env kind ∧ s'.segments = s.segments

/-- A verdict with which the region is one command so far. -/
def Verdict.Leads (env : Env) (kind : MarkupKind) (s : State) : Verdict → Prop
  | .claimed s' => s.Leads env kind s'
  | .declined => True
  | .tooDeep => False

theorem Verdict.Leads.ite {c : Prop} [Decidable c] {v w : Verdict} (hv : c → v.Leads env kind s)
    (hw : ¬c → w.Leads env kind s) : (if c then v else w).Leads env kind s := by
  split
  · exact hv ‹c›
  · exact hw ‹¬c›

section Rules

/- What a rule starts from: a place in a body, with the rest of the bodies ahead. -/
variable (ht : site.Sound env s) (he : env.Sound) (h : s.InCommand kind depth)
  (htext : InBody depth (env.source.slice s.place env.stop)) (hcalm : s.overflow = none)

/-- The text ahead is the rest of the line and what follows it. -/
theorem Site.Sound.ahead (ht : site.Sound env s) :
    env.source.slice s.place env.stop = site.rest ++ env.source.slice site.segment.stop env.stop := by
  rw [ht.rest, env.source.slice_append (Nat.le_of_lt ht.lt) ht.stop_le]

include ht htext in
/-- Characters of the line that are neither braces nor backslashes are passed. -/
theorem passed {n : Nat} (hn : n ≤ site.rest.length)
    (hplain : ∀ c ∈ site.rest.take n, c ≠ '\\' ∧ c ≠ '{' ∧ c ≠ '}') :
    InBody depth (env.source.slice (s.place + n) env.stop) := by
  rw [← Source.slice_drop]
  refine htext.drop ?_ ?_
  · rw [ht.ahead, List.length_append]
    omega
  · rwa [ht.ahead, List.take_append_of_le_length hn]

include ht htext in
/-- A run of one character is passed. -/
theorem passed_run {mark : Char} (hmark : mark ≠ '\\' ∧ mark ≠ '{' ∧ mark ≠ '}') :
    InBody depth (env.source.slice (s.place + runLength (· == mark) site.rest) env.stop) := by
  refine passed ht htext (runLength_le _ _) fun c hc => ?_
  have hrun : site.rest.take (runLength (· == mark) site.rest) = site.rest.takeWhile (· == mark) :=
    (List.prefix_iff_eq_take.mp (List.takeWhile_prefix _)).symm
  rw [hrun] at hc
  obtain rfl : c = mark := by simpa using List.mem_takeWhile_imp hc
  exact hmark

include h in
/-- A leaf of what is passed. -/
theorem pushLeaf_leads {leaf : MarkupKind} {stop : Nat} (hpassed : InBody depth (env.source.slice stop env.stop)) :
    s.Leads env kind (s.pushLeaf env.source leaf stop) :=
  fun _ => ⟨.inl ⟨depth, h.pushLeaf _ _ _, hpassed⟩, rfl⟩

include h hcalm in
/-- A mark that is opened, if there is room. -/
theorem openMark_leads {opener : Opener} {stop : Nat} (hcommand : opener.isCommand = false)
    (hbody : opener.isBody = false) (hpassed : InBody depth (env.source.slice stop env.stop)) :
    s.Leads env kind (s.openMark env.source opener stop) := by
  intro hroom
  unfold State.openMark at hroom ⊢
  split
  · have hpushed := h.pushWaiting hcommand hbody ⟨s.place, stop⟩
    exact ⟨.inl ⟨depth, hpushed.congr rfl rfl, hpassed⟩, rfl⟩
  · rename_i hfull
    rw [if_neg hfull] at hroom
    have hnoted : Limited.first s.overflow (some s.place) = none := hroom
    rw [hcalm] at hnoted
    exact absurd hnoted (Option.some_ne_none _)

include ht h htext in
theorem escapeRule_leads (hrest : ∃ cs, site.rest = '\\' :: cs) : (escapeRule env s site).Leads env kind s := by
  obtain ⟨cs, hrest⟩ := hrest
  unfold escapeRule
  split
  · rename_i b c ds hds
    split
    · refine pushLeaf_leads h ?_
      rw [hrest] at hds
      obtain ⟨rfl, hcs⟩ := List.cons.inj hds
      rw [← Source.slice_drop, ht.ahead, hrest, hcs]
      rw [ht.ahead, hrest, hcs] at htext
      exact htext.escape
    · trivial
  · trivial

include ht h htext hcalm in
theorem emphasisRule_leads {mark : Char} (hmark : mark ≠ '\\' ∧ mark ≠ '{' ∧ mark ≠ '}') :
    (emphasisRule env s site mark).Leads env kind s := by
  have hpassed := passed_run ht htext hmark
  unfold emphasisRule
  dsimp only
  split
  · exact pushLeaf_leads h hpassed
  split
  · rename_i closed hclosed
    split at hclosed
    · obtain ⟨hin, hplace, hsegments⟩ := h.resolve isEmphasis_mark hclosed
      exact fun _ => ⟨.inl ⟨depth, hin, hplace ▸ hpassed⟩, hsegments⟩
    · exact absurd hclosed (Option.some_ne_none closed).symm
  · split
    · exact openMark_leads h hcalm rfl rfl hpassed
    · exact pushLeaf_leads h hpassed

include ht h htext hcalm in
theorem strikeRule_leads : (strikeRule env s site).Leads env kind s := by
  unfold strikeRule
  dsimp only
  split
  · trivial
  rename_i hwidth
  have hpassed := passed_run ht htext (show '~' ≠ '\\' ∧ '~' ≠ '{' ∧ '~' ≠ '}' by decide)
  rw [show runLength (· == '~') site.rest = 2 by simpa using hwidth] at hpassed
  split
  · rename_i closed hclosed
    split at hclosed
    · obtain ⟨hin, hplace, hsegments⟩ := h.resolve isStrike_mark hclosed
      exact fun _ => ⟨.inl ⟨depth, hin, hplace ▸ hpassed⟩, hsegments⟩
    · exact absurd hclosed (Option.some_ne_none closed).symm
  · split
    · exact openMark_leads h hcalm rfl rfl hpassed
    · trivial

include h hcalm in
theorem linkOpenRule_leads {image : Bool}
    (hpassed : InBody depth (env.source.slice (s.place + if image then 2 else 1) env.stop)) :
    (linkOpenRule env s image).Leads env kind s := by
  have hopened := openMark_leads h hcalm (show (Opener.link image).isCommand = false from rfl) rfl hpassed
  by_cases hspace : s.hasRoom = true
  · have hpushed := (h.pushWaiting (show (Opener.link image).isCommand = false from rfl) rfl
      ⟨s.place, s.place + if image then 2 else 1⟩).opening .square
    simp only [linkOpenRule, State.openMark, if_pos hspace]
    exact fun _ => ⟨.inl ⟨depth, hpushed.congr rfl rfl, hpassed⟩, rfl⟩
  · simp only [linkOpenRule, if_neg hspace]
    exact hopened

include ht h htext in
theorem dashRule_leads : (dashRule env s site).Leads env kind s := by
  unfold dashRule
  split
  · rename_i hwidth
    have hpassed := passed_run ht htext (show '-' ≠ '\\' ∧ '-' ≠ '{' ∧ '-' ≠ '}' by decide)
    rw [beq_iff_eq.mp hwidth] at hpassed
    exact pushLeaf_leads h hpassed
  · trivial

include ht h htext in
/-- Plain text is passed with the braces in it. -/
theorem plainText_leads {c : Char} {cs : List Char} (hrest : site.rest = c :: cs)
    (hback : c = '\\' → cs.head?.any isIntroducer = true ∨ InBody depth (env.source.slice (s.place + 1) env.stop))
    (hclose : c = '}' → depth ≠ 0) : s.Leads env kind (plainText env s site c) := by
  obtain ⟨hhead, hbody, -⟩ := h.form?
  have hrun := (ht.ahead ▸ htext : InBody (depth + 0) (site.rest ++ _)).plainRun
  rw [← ht.ahead, Source.slice_drop] at hrun
  have hbrace : c = '{' → 0 < (plainRun false true 0 site.rest).1 := by
    rintro rfl
    rw [hrest, plainRun]
    · exact Nat.succ_pos _
    · exact fun hc => absurd hc (by decide)
    · exact fun _ _ hc => absurd hc (by decide)
  have hescaped : c = '\\' → cs.head?.any isIntroducer = true → 0 < (plainRun false true 0 site.rest).1 := by
    rintro rfl hintroducer
    cases cs with
    | nil => exact absurd hintroducer Bool.false_ne_true
    | cons d ds =>
        have hd : isIntroducer d = true := hintroducer
        rw [hrest, plainRun, if_pos hd]
        exact Nat.succ_pos _
  unfold plainText
  rw [hhead, hbody]
  generalize plainRun false true 0 site.rest = run at hrun hbrace hescaped
  obtain ⟨n, opened⟩ := run
  dsimp only at hrun hbrace hescaped ⊢
  split
  · intro _
    obtain ⟨-, -, hsegments⟩ := openBraces_same opened s
    exact ⟨.inl ⟨depth + opened, ((h.openBraces opened).pushLeaf _ _ _).congr rfl rfl, hrun⟩, hsegments⟩
  rename_i hzero
  have hopen : c ≠ '{' := fun hc => hzero (hbrace hc)
  have hahead : env.source.slice s.place env.stop = c :: (cs ++ env.source.slice site.segment.stop env.stop) := by
    rw [ht.ahead, hrest]
    rfl
  have hbehind := env.source.slice_tail hahead
  by_cases hc : c = '}'
  · subst hc
    obtain ⟨outer, rfl⟩ := Nat.exists_eq_succ_of_ne_zero (hclose rfl)
    have hpassed : InBody outer (env.source.slice (s.place + 1) env.stop) := by
      rw [hbehind]
      exact (hahead ▸ htext : InBody (outer + 1) ('}' :: _)).closing
    exact fun _ => ⟨.inl ⟨outer, h.closingBrace.pushLeaf _ _ _, hpassed⟩, rfl⟩
  · have hpassed : InBody depth (env.source.slice (s.place + 1) env.stop) := by
      by_cases hescape : c = '\\'
      · exact (hback hescape).resolve_left fun hintroducer => hzero (hescaped hescape hintroducer)
      · rw [hbehind]
        exact (hahead ▸ htext : InBody depth (c :: _)).char hescape hopen hc
    exact fun _ => ⟨.inl ⟨depth, (h.literal hopen hc).pushLeaf _ _ _, hpassed⟩, rfl⟩

/- Behind a line the text ends, or a line end stands. -/
variable (hline : (env.source.slice site.segment.stop env.stop).head?.all isNewline = true)

include hline in
/-- What follows the line does not start with a character that ends no line. -/
theorem line_cons {c : Char} {cs ds : List Char} (hc : isNewline c = false)
    (h : cs ++ env.source.slice site.segment.stop env.stop = c :: ds) : ∃ es, cs = c :: es ∧
      ds = es ++ env.source.slice site.segment.stop env.stop := by
  cases cs with
  | nil =>
      rw [List.nil_append] at h
      rw [h] at hline
      exact absurd (hc.symm.trans hline) Bool.false_ne_true
  | cons d es =>
      obtain ⟨rfl, rfl⟩ := List.cons.inj h
      exact ⟨es, rfl, rfl⟩

include ht he h htext hline in
/-- The brace that ends a body.  Another body follows at once, or the region ends. -/
theorem closeBodyRule_leads {cs : List Char} (hrest : site.rest = '}' :: cs) (hdepth : depth = 0) :
    (closeBodyRule env s site).Leads env kind s ∧ closeBodyRule env s site ≠ .declined := by
  subst hdepth
  obtain ⟨above, d, below, hfound, hbetween⟩ := h.closeBody
  have hcloses : s.nesting.closes .brace = true := h.form?.2.2
  have hahead : env.source.slice s.place env.stop = '}' :: (cs ++ env.source.slice site.segment.stop env.stop) := by
    rw [ht.ahead, hrest]
    rfl
  have hbehind := env.source.slice_tail hahead
  rw [hahead] at htext
  obtain ⟨hbodies, hclear⟩ := htext.last
  unfold closeBodyRule
  simp only [hcloses, hfound, hrest, List.tail_cons, Bool.not_true, Bool.false_eq_true, if_false]
  generalize hmore : cs ++ env.source.slice site.segment.stop env.stop = more at hbodies hclear hbehind
  cases hbodies with
  | nil =>
      -- no body follows, and nothing else
      obtain ⟨rfl, -⟩ := List.append_eq_nil_iff.mp hmore
      have hstop : s.place + 1 = env.stop := by
        have hlength := env.source.length_slice (i := s.place + 1) he.stop_le
        rw [hbehind, List.length_nil] at hlength
        have hlt := ht.lt
        have hle := ht.stop_le
        omega
      refine ⟨fun _ => ⟨.inr ⟨?_, (hbetween _ _).finishCommand _⟩, (finishCommand_place _ _).2⟩, Verdict.noConfusion⟩
      exact (finishCommand_place _ _).1.trans hstop
  | @cons ds n hbody hothers =>
      obtain ⟨es, rfl, hds⟩ := line_cons hline (by decide) hmore
      have hopened : ∀ block, State.Leads env kind s (State.openBody
          ((({ s with parts := .done block :: below } : State).shift (.closing .brace)).jump (s.place + 1))
            (s.place + 1)) := by
        intro block _
        refine ⟨.inl ⟨0, (hbetween block _).openBody _, ?_⟩, rfl⟩
        show InBody 0 (env.source.slice (s.place + 1 + 1) env.stop)
        rw [env.source.slice_tail hbehind]
        exact ⟨⟨n, hbody, hothers⟩, (hidesNothing_cons (by decide) hclear).2.2⟩
      cases es with
      | nil => exact ⟨hopened _, Verdict.noConfusion⟩
      | cons e es =>
          have hbar : e ≠ '|' := by
            rintro rfl
            rw [hds] at hclear
            exact absurd (hidesNothing_cons (by decide) hclear).2.1 (by simp [mayHideTogether])
          split
          · rename_i heq
            exact absurd (List.cons.inj (List.cons.inj heq).2).1 hbar
          · exact ⟨hopened _, Verdict.noConfusion⟩
          · rename_i hother
            exact absurd rfl (hother (e :: es))

include ht htext hline in
/-- A backslash that is no escape is passed alone, or with the introducer behind it. -/
theorem escapeRule_declined {cs : List Char} (hrest : site.rest = '\\' :: cs)
    (hdeclined : escapeRule env s site = .declined) :
    cs.head?.any isIntroducer = true ∨ InBody depth (env.source.slice (s.place + 1) env.stop) := by
  have hahead : env.source.slice s.place env.stop = '\\' :: (cs ++ env.source.slice site.segment.stop env.stop) := by
    rw [ht.ahead, hrest]
    rfl
  rw [env.source.slice_tail hahead]
  rw [hahead] at htext
  cases cs with
  | nil =>
      right
      rw [List.nil_append] at htext ⊢
      cases hafter : env.source.slice site.segment.stop env.stop with
      | nil =>
          rw [hafter] at htext
          obtain ⟨n, hn, -⟩ := htext.closes
          exact absurd hn (by simp [closingBrace?])
      | cons d ds =>
          rw [hafter] at htext hline
          refine htext.backslash (Bool.eq_false_iff.mpr fun hd => ?_)
          exact absurd (isNewline_of_isPunctuation hd) (by rw [show isNewline d = true from hline]; decide)
  | cons d ds =>
      unfold escapeRule at hdeclined
      rw [hrest] at hdeclined
      dsimp only at hdeclined
      split at hdeclined
      · exact absurd hdeclined Verdict.noConfusion
      · rename_i hno
        cases hintroducer : isIntroducer d with
        | true => exact .inl hintroducer
        | false =>
            right
            refine htext.backslash (Bool.eq_false_iff.mpr fun hd => hno ?_)
            rw [hd, hintroducer]
            rfl

/- What stands behind the character at the place hides nothing together with it. -/
variable {c : Char} (hnext : ∀ d, site.rest[1]? = some d → mayHideTogether c d = false)

include ht h htext hcalm in
/-- The start of a link, or of an image by a mark and a bracket. -/
theorem linkRules_leads {cs : List Char} (hrest : site.rest = c :: cs) :
    (c = '[' → (linkOpenRule env s false).Leads env kind s) ∧
    (c = '!' → site.rest[1]? = some '[' → (linkOpenRule env s true).Leads env kind s) := by
  constructor
  · rintro rfl
    refine linkOpenRule_leads h hcalm ?_
    exact passed ht htext (n := 1) (by rw [hrest]; exact Nat.succ_pos _) (by simp [hrest])
  · rintro rfl hbracket
    obtain ⟨ds, hds⟩ : ∃ ds, site.rest = '!' :: '[' :: ds := by
      rw [hrest] at hbracket ⊢
      cases cs with
      | nil => exact absurd hbracket (by decide)
      | cons d ds =>
          obtain rfl : d = '[' := by simpa using hbracket
          exact ⟨ds, rfl⟩
    refine linkOpenRule_leads h hcalm ?_
    exact passed ht htext (n := 2) (by rw [hds]; simp) (by simp [hds])

include hnext in
/-- No link ends where nothing is hidden. -/
theorem linkCloseRule_leads (hc : c = ']') : (linkCloseRule env s site).Leads env kind s := by
  unfold linkCloseRule
  split
  · rename_i ds hds
    exact absurd (hnext '(' (by rw [hds]; rfl)) (by rw [hc]; decide)
  · trivial

include hnext in
/-- No comment starts where nothing is hidden. -/
theorem commentRule_leads {cs : List Char} (hrest : site.rest = c :: cs) (hc : c = '/') :
    (commentRule env s site).Leads env kind s := by
  unfold commentRule
  split
  · rename_i hcomment
    obtain ⟨ds, hds⟩ : ∃ ds, site.rest = '/' :: '/' :: ds := by
      rw [hrest, hc] at hcomment ⊢
      cases cs with
      | nil => exact absurd hcomment (by simp)
      | cons d ds =>
          obtain rfl : d = '/' := by simpa using (Bool.and_eq_true_iff.mp hcomment).1
          exact ⟨ds, rfl⟩
    exact absurd (hnext '/' (by rw [hds]; rfl)) (by rw [hc]; decide)
  · trivial

include ht he h htext hcalm hline in
/-- **Every rule keeps the region one command**, and a place that no rule claims is plain. -/
theorem fullRule_leads {cs : List Char} (hrest : site.rest = c :: cs) :
    (fullRule env s site c).Leads env kind s ∧ (fullRule env s site c = .declined →
      s.Leads env kind (plainText env s site c)) := by
  have hplain := plainText_leads ht h htext hrest
  by_cases hback : c = '\\'
  · subst hback
    have hrule : fullRule env s site '\\' = escapeRule env s site := rfl
    rw [hrule]
    refine ⟨escapeRule_leads ht h htext ⟨cs, hrest⟩, fun hdeclined => hplain (fun _ => ?_) fun hc => ?_⟩
    · exact escapeRule_declined ht htext hline hrest hdeclined
    · exact absurd hc (by decide)
  by_cases hclose : c = '}'
  · subst hclose
    have hrule : fullRule env s site '}' = closeBodyRule env s site := rfl
    rw [hrule]
    by_cases hdepth : depth = 0
    · obtain ⟨hleads, hclaimed⟩ := closeBodyRule_leads ht he h htext hline hrest hdepth
      exact ⟨hleads, fun hdeclined => absurd hdeclined hclaimed⟩
    · have hdeclined : closeBodyRule env s site = .declined := by
        rw [closeBodyRule, h.form?.2.2, decide_eq_false hdepth]
        rfl
      exact ⟨hdeclined ▸ trivial, fun _ => hplain (fun hc => absurd hc hback) fun _ => hdepth⟩
  refine ⟨?_, fun _ => hplain (fun hc => absurd hc hback) fun hc => absurd hc hclose⟩
  have hahead : env.source.slice s.place env.stop = c :: (cs ++ env.source.slice site.segment.stop env.stop) := by
    rw [ht.ahead, hrest]
    rfl
  obtain ⟨hsingle, htogether, hclear⟩ := hidesNothing_cons hback (hahead ▸ htext.clear)
  have hstarts : ∀ d, mayHide d = true → (c == d) = false := by
    rintro d hd
    refine Bool.eq_false_iff.mpr fun heq => ?_
    rw [beq_iff_eq.mp heq, hd] at hsingle
    exact absurd hsingle.symm Bool.false_ne_true
  -- the character behind one that is no backslash
  have hnext : ∀ d, site.rest[1]? = some d → mayHideTogether c d = false ∧ (d ≠ '\\' → mayHide d = false) := by
    intro d hd
    rw [hrest] at hd
    cases cs with
    | nil => exact absurd hd (Option.some_ne_none d).symm
    | cons e es =>
        obtain rfl : e = d := Option.some.inj hd
        exact ⟨htogether, fun hne => (hidesNothing_cons hne hclear).1⟩
  unfold fullRule
  refine .ite (fun hc => absurd (beq_iff_eq.mp hc) hback) fun _ => ?_
  rw [hstarts '@' (by decide), hstarts '#' (by decide), hstarts '&' (by decide), hstarts '$' (by decide),
    hstarts '\x60' (by decide), hstarts '<' (by decide)]
  simp only [Bool.false_eq_true, if_false]
  refine .ite (fun _ => .ite (fun hat => ?_) fun _ => trivial) fun _ => ?_
  · exact absurd ((hnext '@' (beq_iff_eq.mp hat)).2 (by decide)) (by decide)
  refine .ite (fun hc => emphasisRule_leads ht h htext hcalm ?_) fun _ => ?_
  · rcases Bool.or_eq_true_iff.mp hc with hc | hc <;> rw [beq_iff_eq.mp hc] <;> decide
  refine .ite (fun _ => strikeRule_leads ht h htext hcalm) fun _ => ?_
  obtain ⟨hlink, himage⟩ := linkRules_leads ht h htext hcalm hrest
  have halone := fun d hd => (hnext d hd).1
  refine .ite (fun hc => hlink (beq_iff_eq.mp hc)) fun _ => ?_
  refine .ite (fun hc => .ite (fun hd => himage (beq_iff_eq.mp hc) (beq_iff_eq.mp hd)) fun _ => trivial) fun _ => ?_
  refine .ite (fun hc => linkCloseRule_leads halone (beq_iff_eq.mp hc)) fun _ => ?_
  refine .ite (fun _ => dashRule_leads ht h htext) fun _ => ?_
  refine .ite (fun hc => commentRule_leads halone hrest (beq_iff_eq.mp hc)) fun _ => ?_
  exact .ite (fun hc => absurd (beq_iff_eq.mp hc) hclose) fun _ => trivial

end Rules

end ComponentMarkup.Markup
