import ComponentMarkup.Proofs.Markup.ReadingRules
import ComponentMarkup.Proofs.Markup.SoleRegion

/-!
# Regions are made by the rules

From what a rule gives follows what a step keeps, from the steps what a whole region is read as, and from that, by the
levels of regions inside each other, what every region is read as.  The stretches of a region need something between
them that is no closing brace, or else a verbatim body could end between two of them.

* `Spaced` — stretches with something between them;
* `Reading.Keeps.step` — a step keeps what is known of the states that the reader goes through;
* `Reading.content_made` — the nodes of a region are made by the rules, however deep regions are inside each other.
-/

namespace ComponentMarkup.Markup

open ComponentMarkup.Text ComponentMarkup.Tree

variable {deep : Prop} {r : Reading} {s s' : State} {segment : Span} {c : Char} {cs : List Char} {p : Nat}

/-! ## Steps -/

/-- Stretches with something between them, but no closing brace. -/
def Spaced (src : Source) (segments : List Span) : Prop :=
  segments.IsChain fun a b => a.stop < b.start ∧ ∀ p, a.stop ≤ p → p < b.start → src.chars[p]? ≠ some '}'

/-- Between stretches with line breaks between them there is something, but no brace. -/
theorem Spaced.of_breaks {src : Source} {quoted : Prop} {segments : List Span} (h : Breaks src quoted segments) :
    Spaced src segments := by
  refine h.imp fun a b ⟨hle, hbreak⟩ => ?_
  have hchars : ∀ c ∈ src.slice a.stop b.start, c ≠ '}' := by
    obtain ⟨ending, margin, hsplit, hending, hmargin⟩ := hbreak
    rw [hsplit]
    rintro c hc rfl
    rcases List.mem_append.mp hc with hc | hc
    · exact absurd (hending.isNewline _ hc) (by decide)
    · exact (hmargin _ hc).elim (absurd · (by decide)) fun hquote => absurd hquote.2 (by decide)
  refine ⟨Nat.lt_of_le_of_ne hle fun heq => ?_, fun p hp hlt hbrace => ?_⟩
  · obtain ⟨ending, margin, hsplit, hending, -⟩ := hbreak
    rw [heq, src.slice_self] at hsplit
    exact hending.ne_nil (List.append_eq_nil_iff.mp hsplit.symm).1
  · exact hchars '}' (Source.mem_slice.mpr ⟨p, hp, hlt, hbrace⟩) rfl

/-- The stretch that is left when others are skipped starts before a brace inside of the region. -/
theorem skip_start {src : Source} {segments : List Span} (hspaced : Spaced src segments)
    (hbrace : src.chars[p]? = some '}') (hfirst : ∀ a rest, segments = a :: rest → a.start ≤ p + 1) (later : List Span)
    (h : State.jumpAcross.skip (p + 1) segments = segment :: later) : segment.start ≤ p + 1 := by
  fun_induction State.jumpAcross.skip (p + 1) segments with
  | case1 a b rest hstop ih =>
      obtain ⟨hbreak, hrest⟩ := List.isChain_cons_cons.mp hspaced
      refine ih hrest (fun a' rest' heq => ?_) h
      obtain ⟨rfl, -⟩ := List.cons.inj heq
      by_contra hlt
      exact hbreak.2 p (by omega) (by omega) hbrace
  | case2 => exact hfirst _ _ h
  | case3 => exact hfirst _ _ h

namespace Reading

/-- What a state that the reader goes through keeps. -/
structure Keeps (deep : Prop) (r : Reading) (lo : Nat) (s : State) : Prop where
  reaches : r.Reaches s
  sound : s.Sound r.env lo
  suffix : s.segments <:+ r.segments
  place : ∀ segment later, s.segments = segment :: later → segment.start ≤ s.place ∧
    Fresh r.source r.mode segment s.place
  parts : PartsMade deep r s.parts

/-- One more step. -/
theorem Reaches.step {later : List Span} (h : r.Reaches s) (hsegments : s.segments = segment :: later) :
    r.Reaches (step r.env s segment later) := by
  obtain ⟨steps, rfl⟩ := h
  refine ⟨steps + 1, ?_⟩
  generalize State.start r.segments = start at *
  induction steps generalizing start with
  | zero =>
      have hstart : start.segments = segment :: later := hsegments
      simp only [readRegion, hstart]
  | succ steps ih =>
      rw [readRegion] at hsegments ⊢
      cases hfirst : start.segments with
      | nil =>
          simp only [hfirst] at hsegments
          exact absurd hsegments (List.cons_ne_nil _ _).symm
      | cons first rest =>
          simp only [hfirst] at hsegments ⊢
          rw [readRegion, hfirst]
          exact ih _ hsegments

variable {lo : Nat} {later : List Span}

/-- What a rule gives is kept. -/
theorem Keeps.of_gives (hk : r.Keeps deep lo s) (hspaced : Spaced r.source r.segments)
    (hsegments : s.segments = segment :: later) (hadvance : Advance r.env lo segment s s')
    (hgives : Gives deep r segment s s') : ∀ next rest, s'.segments = next :: rest → next.start ≤ s'.place ∧
      Fresh r.source r.mode next s'.place := by
  intro next rest hnext
  have hstart := (hk.place segment later hsegments).1
  have hforth := hadvance.forth
  rcases hgives.lands with ⟨hsame, hfresh⟩ | ⟨p, hplace, hbrace⟩
  · rw [hsame, hsegments] at hnext
    obtain ⟨rfl, -⟩ := List.cons.inj hnext
    exact ⟨by omega, hfresh⟩
  · rw [hplace]
    refine ⟨?_, .of_last (by rw [hbrace]; decide)⟩
    rcases hadvance.within with ⟨-, hsame⟩ | ⟨-, hskip⟩
    · rw [hsame, hsegments] at hnext
      obtain ⟨rfl, -⟩ := List.cons.inj hnext
      omega
    · rw [hskip, hplace, hsegments] at hnext
      have hleft : Spaced r.source (segment :: later) := by
        obtain ⟨gone, hgone⟩ := hk.suffix
        exact hsegments ▸ (hgone ▸ hspaced : Spaced r.source (gone ++ s.segments)).right_of_append
      refine skip_start hleft hbrace (fun a rest heq => ?_) rest hnext
      obtain ⟨rfl, -⟩ := List.cons.inj heq
      omega

/-- The line break behind a stretch lies in no stretch of the region. -/
theorem Keeps.gap {hi : Nat} {next : Span} {rest : List Span} (hk : r.Keeps deep lo s)
    (hregion : Region lo hi r.segments) (hsegments : s.segments = segment :: next :: rest) :
    Gap r segment.stop next.start := by
  intro other hother p hp hlt ⟨hstart, hstop⟩
  obtain ⟨gone, hgone⟩ := hk.suffix
  rw [hsegments] at hgone
  have hlines := hregion.lines
  rw [← hgone] at hlines hother
  obtain ⟨hbefore, hleft⟩ := hlines.split
  rcases List.mem_append.mp hother with hother | hother
  · have hbehind := (hbefore.mem hother).2.2
    have := hleft.1
    have := hleft.2.1
    omega
  rcases List.mem_cons.mp hother with rfl | hother
  · omega
  rcases List.mem_cons.mp hother with rfl | hother
  · omega
  · have hbehind := (hleft.2.2.2.2.mem hother).1
    have := hleft.2.2.2.1
    omega

theorem plainText_overflow (env : Env) (s : State) (site : Site) (c : Char) :
    (plainText env s site c).overflow = s.overflow := by
  unfold plainText
  dsimp only
  split
  · exact openBraces_overflow _ s
  · rfl

/-- What the active rules answer at a place. -/
def verdict (r : Reading) (s : State) (segment : Span) (c : Char) : Verdict :=
  match r.mode with
  | .full => fullRule r.env s (r.site s segment) c
  | .template => templateRule r.env s (r.site s segment) c

theorem verdict_sound (he : r.env.Sound) (hstack : Stack r.source lo s.place s.parts)
    (ht : (r.site s segment).Sound r.env s) (hrest : r.source.slice s.place segment.stop = c :: cs) :
    (r.verdict s segment c).Sound r.env lo segment s := by
  unfold verdict
  split
  · exact fullRule_sound he hstack ht hrest
  · exact templateRule_sound he hstack ht

theorem verdict_gives (hs : Here deep r s segment) (hnested : NestedMade deep r)
    (hrest : r.source.slice s.place segment.stop = c :: cs) : (r.verdict s segment c).Gives deep r segment s := by
  unfold verdict
  split
  · exact fullRule_gives hs hnested ‹_› hrest
  · exact templateRule_gives hs hnested hrest

/-- What is left to plain text where all rules are active. -/
theorem verdict_unclaimed (hrest : r.source.slice s.place segment.stop = c :: cs)
    (h : ∀ s', r.verdict s segment c ≠ .claimed s') (hfull : r.mode = .full) :
    isRunMark c = false ∧ (c = '\\' → cs.head? ≠ some '\\') := by
  unfold verdict at h
  rw [hfull] at h
  exact fullRule_unclaimed (show (r.site s segment).rest = c :: cs from hrest) h

/-- What becomes of a verdict. -/
theorem step_cases (later : List Span) (hplace : s.place < segment.stop) (hcalm : s.overflow = none)
    (hrest : r.source.slice s.place segment.stop = c :: cs) :
    (∃ s', r.verdict s segment c = .claimed s' ∧
        Markup.step r.env s segment later = if c == '}' || c == '{' then s' else s'.shift .other) ∨
      (r.verdict s segment c = .declined ∧
        Markup.step r.env s segment later = plainText r.env s (r.site s segment) c) ∨
      (r.verdict s segment c = .tooDeep ∧
        Markup.step r.env s segment later = plainText r.env (s.note (some s.place)) (r.site s segment) c) := by
  unfold Markup.step
  rw [if_neg (Nat.not_le.mpr hplace), hcalm, Option.isSome_none, if_neg Bool.false_ne_true]
  dsimp only
  split
  · rename_i hnil
    exact absurd (hrest.symm.trans hnil) (List.cons_ne_nil _ _)
  · rename_i first rest hfirst
    obtain ⟨rfl, rfl⟩ := List.cons.inj (hrest.symm.trans hfirst)
    split
    · rename_i s' hclaimed
      exact .inl ⟨s', hclaimed, rfl⟩
    · rename_i hdeclined
      exact .inr (.inl ⟨hdeclined, rfl⟩)
    · rename_i hdeep
      exact .inr (.inr ⟨hdeep, rfl⟩)

/-- Behind a place that goes too deep, the rest of a stretch is text. -/
theorem spill (hs : Here deep r s segment) (later : List Span) (hoverflow : s.overflow.isSome = true) :
    Markup.step r.env s segment later = s.pushLeaf r.source .text segment.stop ∧
      Gives deep r segment s (Markup.step r.env s segment later) := by
  have hstep : Markup.step r.env s segment later = s.pushLeaf r.source .text segment.stop := by
    unfold Markup.step
    rw [if_neg (Nat.not_le.mpr hs.lt), if_pos hoverflow]
    rfl
  refine ⟨hstep, hstep ▸ .node hs.parts (fun hdeep => .text (.one (?_ : Piece deep r segment _ _))) rfl rfl
    (.of_end (Nat.le_refl _))⟩
  exact ⟨hs.mem, ⟨hs.start_le, hs.lt, Nat.le_refl _⟩, fun _ _ _ hlt => absurd hlt (Nat.lt_irrefl _),
    fun _ hlt => absurd hlt (Nat.lt_irrefl _), .inl (hdeep hoverflow)⟩

/-- A step that does not leave a stretch moves on, and gives what a rule gives. -/
theorem Keeps.step_gives (hnested : NestedMade deep r) (he : r.env.Sound) (hk : r.Keeps deep lo s)
    (hsegments : s.segments = segment :: later) (hplace : s.place < segment.stop) :
    Advance r.env lo segment s (Markup.step r.env s segment later) ∧
      Gives deep r segment s (Markup.step r.env s segment later) := by
  have hahead := hk.sound.ahead
  rw [hsegments] at hahead
  have hstack := hk.sound.stack
  have hstart := hk.place segment later hsegments
  have hsize : segment.stop ≤ r.source.size := Nat.le_trans hahead.stop_le he.stop_le
  have hs : Here deep r s segment :=
    ⟨hk.suffix.subset (hsegments ▸ List.mem_cons_self), hstart.1, hplace, hsize, hstart.2, hk.parts⟩
  have ht : (r.site s segment).Sound r.env s := ⟨hplace, hahead.stop_le, rfl⟩
  cases hcalm : s.overflow with
  | some place =>
      obtain ⟨hstep, hgives⟩ := spill hs later (hcalm ▸ rfl)
      exact ⟨hstep ▸ Advance.pushLeaf hstack (by decide) hplace (Nat.le_refl _) hsize, hgives⟩
  | none =>
      obtain ⟨c, cs, hrest⟩ : ∃ c cs, r.source.slice s.place segment.stop = c :: cs := by
        refine List.exists_cons_of_ne_nil fun hnil => ?_
        have hlen := r.source.length_slice (i := s.place) hsize
        rw [hnil, List.length_nil] at hlen
        omega
      have hsound := verdict_sound he hstack ht hrest
      have hgives := verdict_gives hs hnested hrest
      have hfree := verdict_unclaimed hrest
      rcases step_cases later hplace hcalm hrest with ⟨s', hverdict, hstep⟩ | ⟨hverdict, hstep⟩ |
        ⟨hverdict, hstep⟩ <;> rw [hverdict] at hsound hgives hfree <;> rw [hstep]
      · split
        · exact ⟨hsound, hgives⟩
        · exact ⟨hsound.congr rfl rfl rfl, hgives.congr rfl rfl rfl rfl⟩
      · refine ⟨plainText_sound he hstack ht, ?_⟩
        refine plainText_gives hs hrest (fun hfull => (hfree nofun hfull).1) (fun hfull => (hfree nofun hfull).2)
          fun stop hlt hstop _ => .inr ⟨s, segment, later, c, cs, hk.reaches, hsegments, rfl, hrest, ?_, hlt, hstop⟩
        rw [hstep]
        exact congrArg (fun rest => plainText r.env s ⟨segment, rest⟩ c) hrest
      · -- the note that the region goes too deep changes no part
        have hnoted : Here deep r (s.note (some s.place)) segment := ⟨hs.1, hs.2, hs.3, hs.4, hs.5, hs.6⟩
        have hsite : (r.site s segment).Sound r.env (s.note (some s.place)) := ⟨ht.lt, ht.stop_le, rfl⟩
        have hadvance := plainText_sound (s := s.note (some s.place)) (c := c) he hstack hsite
        refine ⟨⟨hadvance.stack, hadvance.forth, hadvance.within⟩, ?_⟩
        have htext := plainText_gives hnoted hrest (fun hfull => (hfree nofun hfull).1)
          (fun hfull => (hfree nofun hfull).2)
          fun stop _ _ hoverflow => .inl (hoverflow (by
            rw [plainText_overflow]
            exact isSome_first rfl))
        exact ⟨htext.parts, htext.lands⟩

/-- **A step keeps what it should**, if it goes too deep only where the region does. -/
theorem Keeps.step {hi : Nat} (hnested : NestedMade deep r) (he : r.env.Sound) (hregion : Region lo hi r.segments)
    (hspaced : Spaced r.source r.segments) (hk : r.Keeps deep lo s) (hsegments : s.segments = segment :: later)
    (hoverflow : (step r.env s segment later).overflow.isSome = true → deep) :
    r.Keeps deep lo (step r.env s segment later) := by
  have hreaches := hk.reaches.step hsegments
  suffices hmade : PartsMade deep r (Markup.step r.env s segment later).parts ∧
      ∀ next rest, (Markup.step r.env s segment later).segments = next :: rest →
        next.start ≤ (Markup.step r.env s segment later).place ∧
          Fresh r.source r.mode next (Markup.step r.env s segment later).place from
    ⟨hreaches, (step_sound he hk.sound hsegments).1, (step_suffix he hk.sound hsegments).trans hk.suffix, hmade.2,
      hmade.1⟩
  by_cases hplace : segment.stop ≤ s.place
  · -- the end of a stretch
    have hstep : Markup.step r.env s segment later = nextSegment r.env s segment later := if_pos hplace
    rw [hstep]
    unfold nextSegment
    split
    · exact ⟨hk.parts, nofun⟩
    rename_i next rest
    have hparts : PartsMade deep r (State.parts (if segment.stop < next.start then
        ({ s with segments := next :: rest } : State).push (leafOf r.source .newline segment.stop next.start)
        else { s with segments := next :: rest })) := by
      split
      · rename_i hlt
        have hmem : ∀ line ∈ segment :: next :: rest, line ∈ r.segments := hsegments ▸ hk.suffix.subset
        exact hk.parts.push (q := .done _) (Made.newline (hmem _ List.mem_cons_self)
          (hmem _ (List.mem_cons_of_mem _ List.mem_cons_self)) hlt (hk.gap hregion hsegments))
      · exact hk.parts
    refine ⟨hparts, fun other others hothers => ?_⟩
    have hsame : next :: rest = other :: others := by
      rw [← hothers]
      show _ = State.segments (if _ then _ else _)
      split <;> rfl
    obtain ⟨rfl, -⟩ := List.cons.inj hsame
    exact ⟨Nat.le_refl _, fun _ _ _ _ => (slashes_self r.source next.start).symm ▸ ⟨0, rfl⟩⟩
  · obtain ⟨hadvance, hgives⟩ := hk.step_gives hnested he hsegments (Nat.lt_of_not_le hplace)
    refine ⟨hgives.parts (fun d hd hcommand => ?_) hoverflow, hk.of_gives hspaced hsegments hadvance hgives⟩
    exact ⟨_, d, hreaches, hd, hcommand, rfl⟩

/-- **Reading a region keeps what a step keeps.** -/
theorem Keeps.run {hi : Nat} (hnested : NestedMade deep r) (he : r.env.Sound) (hregion : Region lo hi r.segments)
    (hspaced : Spaced r.source r.segments) (fuel : Nat) (hk : r.Keeps deep lo s)
    (hoverflow : (readRegion r.env fuel s).overflow.isSome = true → deep) :
    r.Keeps deep lo (readRegion r.env fuel s) := by
  induction fuel generalizing s with
  | zero => exact hk
  | succ fuel ih =>
      rw [readRegion] at hoverflow ⊢
      cases hsegments : s.segments with
      | nil => exact hk
      | cons segment later =>
          simp only [hsegments] at hoverflow ⊢
          have hstep := hk.step hnested he hregion hspaced hsegments fun hdeep =>
            hoverflow (readRegion_overflow fuel hdeep)
          exact ih hstep hoverflow

/-- A region starts with nothing read. -/
theorem Keeps.start {hi : Nat} (hregion : Region lo hi r.segments) (hstop : r.env.stop = hi) :
    r.Keeps deep lo (.start r.segments) := by
  refine ⟨⟨0, rfl⟩, .start (hstop ▸ hregion), List.suffix_refl _, fun segment later hsegments => ?_,
    fun _ hpart => absurd hpart List.not_mem_nil⟩
  have hplace : (State.start r.segments).place = segment.start := by
    show (r.segments.head?.map Span.start).getD 0 = _
    rw [show r.segments = segment :: later from hsegments]
    rfl
  rw [hplace]
  exact ⟨Nat.le_refl _, fun _ _ _ _ => (slashes_self r.source segment.start).symm ▸ ⟨0, rfl⟩⟩

end Reading

/-- A body that the end of the text closes. -/
theorem PartsMade.closeCommands {env : Env} (hsource : env.source = r.source) (fuel : Nat)
    (h : PartsMade deep r s.parts) : PartsMade deep r (closeCommands env fuel s).parts := by
  induction fuel generalizing s with
  | zero => exact h
  | succ fuel ih =>
      rw [closeCommands_succ]
      refine ih ?_
      unfold closeCommand
      split
      · exact h
      rename_i above d below hfound
      rw [hsource]
      split
      · obtain ⟨habove, hopening, hbelow⟩ := h.lastBody hfound
        exact PartsMade.finishCommand (hbelow.push (q := .done _) (.wrapper rfl (Each.cons hopening habove.settle)))
      · exact h.degradeCommand

namespace Reading

variable {lo hi : Nat}

/-- What the rules need of a region. -/
theorem env_sound (hregion : Region lo hi r.segments) (hhi : hi ≤ r.source.size) : r.env.stop = hi ∧ r.env.Sound := by
  have hstop : r.env.stop = hi := hregion.last_stop
  exact ⟨hstop, hstop ▸ hhi, nestedRegions_run r.source r.levels⟩

/-- The nodes of a region are made by the rules, if those of the regions inside it are. -/
theorem content_of_nested (hnested : NestedMade deep r) (hregion : Region lo hi r.segments) (hhi : hi ≤ r.source.size)
    (hspaced : Spaced r.source r.segments) (hoverflow : r.content.overflow.isSome = true → deep) :
    Each (Made deep r) r.content.value := by
  obtain ⟨hstop, he⟩ := env_sound hregion hhi
  unfold content at hoverflow ⊢
  rw [inlineNodes_eq] at hoverflow ⊢
  dsimp only at hoverflow ⊢
  rw [closeCommands_overflow] at hoverflow
  have hread : r.Keeps deep lo (regionEnd r.source r.levels r.segments r.mode) :=
    Keeps.run hnested he hregion hspaced _ (.start hregion hstop) hoverflow
  exact PartsMade.settle (PartsMade.closeCommands rfl _ hread.parts)

/-- The nodes of the regions inside a region are made by the rules, level by level. -/
theorem nestedMade (r : Reading) : NestedMade deep r := by
  obtain ⟨src, levels, segments, mode⟩ := r
  induction levels generalizing segments mode with
  | zero =>
      intro inner mode hlt hsize hdeep
      have hoverflow : deep := hdeep rfl
      refine ⟨Each.single (.text (.one (?_ : Piece deep _ inner _ _))), .inl hoverflow⟩
      exact ⟨List.mem_singleton_self _, ⟨Nat.le_refl _, hlt, Nat.le_refl _⟩, fun _ _ _ h => absurd h (Nat.lt_irrefl _),
        fun _ h => absurd h (Nat.lt_irrefl _), .inl hoverflow⟩
  | succ levels ih =>
      intro inner mode hlt hsize hdeep
      refine ⟨?_, .inr rfl⟩
      exact content_of_nested (r := ⟨src, levels, [inner], mode⟩) (ih [inner] mode)
        (Region.single (Nat.le_of_lt hlt)) hsize (.singleton _) hdeep

/-- **The nodes of a region are made by the rules**, however deep regions are inside each other. -/
theorem content_made (r : Reading) (hregion : Region lo hi r.segments) (hhi : hi ≤ r.source.size)
    (hspaced : Spaced r.source r.segments) (hoverflow : r.content.overflow.isSome = true → deep) :
    Each (Made deep r) r.content.value :=
  content_of_nested r.nestedMade hregion hhi hspaced hoverflow

/-- **Every state that the reader goes through keeps what a step keeps.** -/
theorem Reaches.keeps (h : r.Reaches s) (hregion : Region lo hi r.segments) (hhi : hi ≤ r.source.size)
    (hspaced : Spaced r.source r.segments) : r.Keeps True lo s := by
  obtain ⟨steps, rfl⟩ := h
  obtain ⟨hstop, he⟩ := env_sound hregion hhi
  exact Keeps.run r.nestedMade he hregion hspaced steps (.start hregion hstop) fun _ => trivial

end Reading

end ComponentMarkup.Markup
