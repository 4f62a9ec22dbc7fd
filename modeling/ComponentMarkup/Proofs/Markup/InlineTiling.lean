import ComponentMarkup.Proofs.Markup.PlainText
import ComponentMarkup.Proofs.Markup.StackTiling
import ComponentMarkup.Proofs.Text.Lines

/-!
# Inline content tiles the text

A region is read from its first stretch to its last.  Its parts always cover the text from the start of the
region to the current place; every step moves the place on or leaves a stretch behind, so the number of steps
that `readInline` allows is enough to get to the end.

A rule that claims a place moves on within the current stretch.  Only a verbatim body may end in a later
stretch, and even then not behind the region.

* `Advance` — what a rule has to achieve when it claims a place;
* `fullRule_sound`, `templateRule_sound` — every rule does;
* `step_sound`, `readRegion_sound` — so does a step, and a whole region is read;
* `inlineNodes_run` — the nodes of a region cover it.
-/

namespace ComponentMarkup.Markup

open ComponentMarkup.Text ComponentMarkup.Tree

variable {env : Env} {lo : Nat} {s : State} {site : Site}

/-- A way to read regions inside a region that covers them. -/
def NestedRuns (src : Source) (nested : Span → Mode → Limited (List Node)) : Prop :=
  ∀ (inner : Span) (mode : Mode), inner.start ≤ inner.stop → inner.stop ≤ src.size →
    Run src.Holds inner.start inner.stop (nested inner mode).value

/-- What is relied on while a region is read: it ends within the text, and regions inside it are covered by
the nodes that are read for them. -/
structure Env.Sound (env : Env) : Prop where
  stop_le : env.stop ≤ env.source.size
  nested : NestedRuns env.source env.nested

/-- A place within the current stretch, with the characters from there on. -/
structure Site.Sound (env : Env) (s : State) (site : Site) : Prop where
  lt : s.place < site.segment.stop
  stop_le : site.segment.stop ≤ env.stop
  rest : site.rest = env.source.slice s.place site.segment.stop

/-- What a rule achieves when it claims a place: the parts cover the text up to a later place, which lies in
the current stretch or, if later stretches were looked at, in one of those. -/
structure Advance (env : Env) (lo : Nat) (segment : Span) (s s' : State) : Prop where
  stack : Stack env.source lo s'.place s'.parts
  forth : s.place < s'.place
  within : s'.place ≤ segment.stop ∧ s'.segments = s.segments ∨
    s'.place ≤ env.stop ∧ s'.segments = State.jumpAcross.skip s'.place s.segments

/-- A verdict that keeps what a region relies on. -/
def Verdict.Sound (env : Env) (lo : Nat) (segment : Span) (s : State) : Verdict → Prop
  | .claimed s' => Advance env lo segment s s'
  | .declined => True
  | .tooDeep => True

/-- A choice between two verdicts. -/
theorem Verdict.Sound.ite {segment : Span} {c : Prop} [Decidable c] {v w : Verdict}
    (hv : c → v.Sound env lo segment s) (hw : w.Sound env lo segment s) :
    (if c then v else w).Sound env lo segment s := by
  split
  · rename_i hc
    exact hv hc
  · exact hw

/-! ## Places and what stands there -/

/-- As many characters are left as places up to the end of the stretch. -/
theorem Site.Sound.length_rest (h : site.Sound env s) (he : env.Sound) :
    site.rest.length = site.segment.stop - s.place := by
  rw [h.rest, env.source.length_slice (Nat.le_trans h.stop_le he.stop_le)]

/-- A place that is not behind the stretch is not behind the text. -/
theorem Site.Sound.le_size (h : site.Sound env s) (he : env.Sound) :
    site.segment.stop ≤ env.source.size :=
  Nat.le_trans h.stop_le he.stop_le

namespace Advance

variable {segment : Span} {s' : State}

/-- A finished node from the current place on. -/
theorem ofNode {node : Node} (hs : Stack env.source lo s.place s.parts)
    (hrun : Run env.source.Holds s.place s'.place [node]) (hbraced : Braced node)
    (hparts : s'.parts = .done node :: s.parts) (hsegments : s'.segments = s.segments)
    (hlt : s.place < s'.place) (hle : s'.place ≤ segment.stop) : Advance env lo segment s s' := by
  refine ⟨?_, hlt, .inl ⟨hle, hsegments⟩⟩
  rw [hparts]
  exact hs.push hrun hbraced

/-- A leaf from the current place on. -/
theorem pushLeaf {kind : MarkupKind} {stop : Nat} (hs : Stack env.source lo s.place s.parts)
    (hkind : kind ≠ .contentBlock) (hlt : s.place < stop) (hle : stop ≤ segment.stop)
    (hsize : stop ≤ env.source.size) :
    Advance env lo segment s (s.pushLeaf env.source kind stop) :=
  ofNode hs (leafOf_run (Nat.le_of_lt hlt) hsize) (Braced.leafOf hkind) rfl rfl hlt hle

/-- What surrounds a place, and what was noted, makes no difference. -/
theorem congr {s'' : State} (h : Advance env lo segment s s') (hplace : s''.place = s'.place)
    (hparts : s''.parts = s'.parts) (hsegments : s''.segments = s'.segments) :
    Advance env lo segment s s'' := by
  refine ⟨?_, ?_, ?_⟩
  · rw [hplace, hparts]
    exact h.stack
  · rw [hplace]
    exact h.forth
  · rw [hplace, hsegments]
    exact h.within

/-- A mark, link or image is opened, or is text if there is no room for it. -/
theorem openMark {opener : Opener} {stop : Nat} (hs : Stack env.source lo s.place s.parts)
    (hopener : ∀ kind head, opener ≠ .command kind head) (hlt : s.place < stop)
    (hle : stop ≤ segment.stop) (hsize : stop ≤ env.source.size) :
    Advance env lo segment s (s.openMark env.source opener stop) := by
  unfold State.openMark
  split
  · have hd : (Delimiter.mk opener ⟨s.place, stop⟩ s.level).Sound env.source :=
      ⟨hlt, hsize, fun kind head heq => absurd heq (hopener kind head)⟩
    exact ⟨hs.pushWaiting hd, hlt, .inl ⟨hle, rfl⟩⟩
  · exact (pushLeaf hs (by decide) hlt hle hsize).congr rfl rfl rfl

end Advance

/-- A body that is opened adds its brace. -/
theorem openBody_stack {src : Source} {brace : Nat} (h : Stack src lo brace s.parts)
    (hsize : brace + 1 ≤ src.size) : Stack src lo (brace + 1) (s.openBody brace).parts := by
  have hbrace : ∀ level, (Delimiter.mk .body ⟨brace, brace + 1⟩ level).Sound src := by
    intro level
    refine ⟨Nat.lt_succ_self _, hsize, ?_⟩
    intro kind head heq
    cases heq
  exact h.pushWaiting (hbrace _)

/-! ## Rules -/

section Rules

variable (he : env.Sound) (hs : Stack env.source lo s.place s.parts) (ht : site.Sound env s)

include he hs ht

theorem escapeRule_sound : (escapeRule env s site).Sound env lo site.segment s := by
  have hlen := ht.length_rest he
  have hsize := ht.le_size he
  unfold escapeRule
  split
  · rename_i c d cs hrest
    rw [hrest] at hlen
    simp only [List.length_cons] at hlen
    split
    · exact Advance.pushLeaf hs (by decide) (by omega) (by omega) (by omega)
    · trivial
  · trivial

omit hs ht in
/-- The content after a colon is covered, and ends on its line. -/
theorem lineContent_run {limit start : Nat} (hstart : start ≤ limit) (hlimit : limit ≤ env.source.size) :
    start ≤ (lineContent env s limit start).2 ∧ (lineContent env s limit start).2 ≤ limit ∧
      Run env.source.Holds start (lineContent env s limit start).2
        (lineContent env s limit start).1.value := by
  have hlength := lineContentLength_le (s.nesting.inside .brace) 0 (env.source.slice start limit)
  rw [env.source.length_slice hlimit] at hlength
  unfold lineContent
  dsimp only
  generalize hstop : start + lineContentLength (s.nesting.inside .brace) 0
    (env.source.slice start limit) = stop
  have hwhite := runLength_le isWhitespace (env.source.slice start stop)
  rw [env.source.length_slice (by omega)] at hwhite
  generalize hcontent : start + runLength isWhitespace (env.source.slice start stop) = content
  have hspace : Run env.source.Holds start content
      (if start < content then [leafOf env.source .space start content] else []) :=
    optionalLeaf_run (by omega) (by omega)
  split
  · rename_i hlt
    have hinner := he.nested ⟨content, stop⟩ .full (Nat.le_of_lt hlt) (by omega : stop ≤ _)
    refine ⟨by omega, by omega, ?_⟩
    exact hspace.append (markup_run _ hinner (hinner.ne_nil hlt))
  · have heq : content = stop := by omega
    rw [heq] at hspace ⊢
    exact ⟨by omega, by omega, hspace⟩

/-- Commands move on. -/
theorem commandRule_sound {kind : MarkupKind} {width : Nat} (hkind : kind ≠ .contentBlock)
    (hwidth : 0 < width) : (commandRule env s site kind width).Sound env lo site.segment s := by
  have hsize := ht.le_size he
  have hregion := he.stop_le
  unfold commandRule
  dsimp only
  split
  · trivial
  split
  · trivial
  rename_i head hread
  obtain ⟨_, hsigil, hlimit, hhead⟩ := Head.read?_run hread hsize
  have hne : head.nodes env.source ≠ [] := hhead.ne_nil (by omega)
  split
  · trivial
  split
  · trivial
  split
  · -- a verbatim body
    rename_i close hverbatim
    split at hverbatim
    · obtain ⟨n, hlength, hclose⟩ := Option.bind_eq_some_iff.mp hverbatim
      split at hclose
      · rename_i hin
        obtain rfl := Option.some.inj hclose
        have hbody : Run env.source.Holds head.stop (head.stop + 2 + n + 2)
            [verbatimNode env.source head.stop (head.stop + 2 + n)] :=
          verbatimNode_run (by omega) (by omega)
        have hnode := markup_run kind (hhead.append hbody)
          (List.append_ne_nil_of_left_ne_nil hne _)
        exact ⟨hs.push hnode (Braced.markup hkind), by show s.place < _ + 2; omega, .inr ⟨hin, rfl⟩⟩
      · exact absurd hclose (by simp)
    · exact absurd hverbatim (by simp)
  split
  · -- a braced body, which stays open
    rename_i hopens
    have hbrace := env.source.lt_of_head?_slice (eq_of_beq hopens)
    have hcommand : (Delimiter.mk (.command kind (head.nodes env.source)) ⟨s.place, head.stop⟩
        (s.shift .introducer).level).Sound env.source := by
      refine ⟨by show s.place < head.stop; omega, by show head.stop ≤ _; omega, ?_⟩
      intro kind' head' heq
      obtain ⟨rfl, rfl⟩ := Opener.command.inj heq
      exact ⟨hkind, hhead⟩
    have hwaiting : Stack env.source lo head.stop ((s.shift .introducer).pushWaiting
        (.command kind (head.nodes env.source)) ⟨s.place, head.stop⟩).parts := hs.pushWaiting hcommand
    exact ⟨openBody_stack hwaiting (by omega), by show s.place < head.stop + 1; omega,
      .inl ⟨by show head.stop + 1 ≤ _; omega, rfl⟩⟩
  split
  · trivial
  split
  · -- content after a colon
    rename_i hcolon
    simp only [Bool.and_eq_true, beq_iff_eq] at hcolon
    have hlt := env.source.lt_of_head?_slice hcolon.1.2
    have hbehind : head.stop + 1 ≤ site.segment.stop := hlt
    obtain ⟨hstart, hstop, hcontent⟩ := lineContent_run (s := s) he hbehind hsize
    have hmark : Run env.source.Holds head.stop (head.stop + 1)
        [leafOf env.source .colon head.stop (head.stop + 1)] := leafOf_run (by omega) (by omega)
    have hnode := markup_run kind (hhead.append (hmark.append hcontent))
      (List.append_ne_nil_of_left_ne_nil hne _)
    exact Advance.ofNode hs hnode (Braced.markup hkind) rfl rfl
      (by show s.place < (lineContent _ _ _ _).2; omega) hstop
  · exact Advance.ofNode hs (markup_run kind hhead hne) (Braced.markup hkind) rfl rfl
      (by show s.place < head.stop; omega) hlimit

theorem referenceRule_sound : (referenceRule env s site).Sound env lo site.segment s := by
  unfold referenceRule
  split
  · trivial
  rename_i head hread
  obtain ⟨_, hsigil, hlimit, hhead⟩ := Head.read?_run hread (ht.le_size he)
  split
  · trivial
  · have hne : head.nodes env.source ≠ [] := hhead.ne_nil (by omega)
    exact Advance.ofNode hs (markup_run .reference hhead hne) (Braced.markup (by decide)) rfl rfl
      (by show s.place < head.stop; omega) hlimit

theorem mathRule_sound : (mathRule env s site).Sound env lo site.segment s := by
  have hlen := ht.length_rest he
  have hsize := ht.le_size he
  unfold mathRule
  split
  · rename_i d c cs hrest
    rw [hrest, List.length_cons] at hlen
    split
    · trivial
    rename_i hc
    simp only [Bool.or_eq_true, beq_iff_eq, not_or] at hc
    split
    · trivial
    rename_i n hmath
    dsimp only
    split
    · trivial
    have hlt := mathLength?_lt hmath
    have hpos := mathLength?_pos hmath hc.1
    have hinner := he.nested ⟨s.place + 1, s.place + 1 + n⟩ .template (Nat.le_add_right _ _)
      (by show s.place + 1 + n ≤ _; omega)
    have hopen : Run env.source.Holds s.place (s.place + 1)
        [leafOf env.source .mathDelim s.place (s.place + 1)] := leafOf_run (by omega) (by omega)
    have hcontent := markup_run .mathContent hinner
      (hinner.ne_nil (by show s.place + 1 < s.place + 1 + n; omega))
    have hclose : Run env.source.Holds (s.place + 1 + n) (s.place + 1 + n + 1)
        [leafOf env.source .mathDelim (s.place + 1 + n) (s.place + 1 + n + 1)] :=
      leafOf_run (by omega) (by omega)
    exact Advance.ofNode hs
      (markup_run .mathInline (hopen.append (hcontent.append hclose)) (List.cons_ne_nil _ _))
      (Braced.markup (by decide)) rfl rfl (by show s.place < s.place + 1 + n + 1; omega)
      (by show s.place + 1 + n + 1 ≤ _; omega)
  · trivial

/-- Code moves on, also if its backticks have no partner. -/
theorem codeRule_sound {c : Char} {cs : List Char} (hrest : site.rest = c :: cs) (hc : c = '\x60') :
    (codeRule env s site).Sound env lo site.segment s := by
  have hlen := ht.length_rest he
  have hsize := ht.le_size he
  have hwidth := runLength_le (· == '\x60') site.rest
  have hpos : 0 < runLength (· == '\x60') site.rest := by
    rw [hrest, runLength_cons _ (by simp [hc])]
    exact Nat.succ_pos _
  unfold codeRule
  dsimp only
  generalize runLength (· == '\x60') site.rest = width at hwidth hpos ⊢
  split
  · exact Advance.pushLeaf hs (by decide) (by omega) (by omega) (by omega)
  · rename_i n hcode
    obtain ⟨hin, hrun⟩ := codeLength?_bound hcode
    rw [List.length_drop] at hin
    have hopen : Run env.source.Holds s.place (s.place + width)
        [leafOf env.source .codeMark s.place (s.place + width)] := leafOf_run (by omega) (by omega)
    have hinside : Run env.source.Holds (s.place + width) (s.place + width + n - width)
        (if s.place + width < s.place + width + n - width then
          [leafOf env.source .codeText (s.place + width) (s.place + width + n - width)] else []) :=
      optionalLeaf_run (by omega) (by omega)
    have hclose : Run env.source.Holds (s.place + width + n - width)
        (s.place + width + n - width + width)
        [leafOf env.source .codeMark (s.place + width + n - width)
          (s.place + width + n - width + width)] := leafOf_run (by omega) (by omega)
    exact Advance.ofNode hs
      (markup_run .inlineCode ((hopen.append hinside).append hclose) (List.cons_ne_nil _ _))
      (Braced.markup (by decide)) rfl rfl
      (by show s.place < s.place + width + n - width + width; omega)
      (by show s.place + width + n - width + width ≤ _; omega)

/-- Closing a mark moves on. -/
theorem resolve?_sound {accept : Opener → Bool} {kind : MarkupKind} {stop : Nat} {s' : State}
    (hkind : kind ≠ .contentBlock) (hlt : s.place < stop) (hle : stop ≤ site.segment.stop)
    (h : resolve? env s accept kind stop = some s') : Advance env lo site.segment s s' := by
  have hsize := ht.le_size he
  obtain ⟨⟨above, d, below⟩, hfound, rfl⟩ := Option.map_eq_some_iff.mp h
  obtain ⟨hd, hbelow, habove⟩ := hs.found hfound
  have hopen : Run env.source.Holds d.span.start d.span.stop
      [leafOf env.source .emphMark d.span.start d.span.stop] :=
    leafOf_run (Nat.le_of_lt hd.lt) hd.stop_le
  have hclose : Run env.source.Holds s.place stop [leafOf env.source .emphMark s.place stop] :=
    leafOf_run (Nat.le_of_lt hlt) (by omega)
  have hnode := markup_run kind ((hopen.append habove.settle).append hclose) (List.cons_ne_nil _ _)
  exact ⟨hbelow.push hnode (Braced.markup hkind), hlt, .inl ⟨hle, rfl⟩⟩

theorem emphasisRule_sound {mark : Char} {cs : List Char} (hrest : site.rest = mark :: cs) :
    (emphasisRule env s site mark).Sound env lo site.segment s := by
  have hlen := ht.length_rest he
  have hsize := ht.le_size he
  have hwidth := runLength_le (· == mark) site.rest
  have hpos : 0 < runLength (· == mark) site.rest := by
    rw [hrest, runLength_cons _ (by simp)]
    exact Nat.succ_pos _
  unfold emphasisRule
  dsimp only
  generalize runLength (· == mark) site.rest = width at hwidth hpos ⊢
  have hlt : s.place < s.place + width := by omega
  have hle : s.place + width ≤ site.segment.stop := by omega
  split
  · exact Advance.pushLeaf hs (by decide) hlt hle (by omega)
  split
  · rename_i s' hclosed
    split at hclosed
    · refine resolve?_sound he hs ht ?_ hlt hle hclosed
      split <;> decide
    · exact absurd hclosed (by simp)
  · split
    · exact Advance.openMark hs (by simp) hlt hle (by omega)
    · exact Advance.pushLeaf hs (by decide) hlt hle (by omega)

theorem strikeRule_sound : (strikeRule env s site).Sound env lo site.segment s := by
  have hlen := ht.length_rest he
  have hsize := ht.le_size he
  have hwidth := runLength_le (· == '~') site.rest
  unfold strikeRule
  split
  · trivial
  rename_i htwo
  simp only [bne_iff_ne, ne_eq, Decidable.not_not] at htwo
  have hlt : s.place < s.place + 2 := by omega
  have hle : s.place + 2 ≤ site.segment.stop := by omega
  dsimp only
  split
  · rename_i s' hclosed
    split at hclosed
    · exact resolve?_sound he hs ht (by decide) hlt hle hclosed
    · exact absurd hclosed (by simp)
  · split
    · exact Advance.openMark hs (by simp) hlt hle (by omega)
    · trivial

theorem linkOpenRule_sound {image : Bool}
    (hroom : s.place + (if image then 2 else 1) ≤ site.segment.stop) :
    (linkOpenRule env s image).Sound env lo site.segment s := by
  have hsize := ht.le_size he
  have hlt : s.place < s.place + if image then 2 else 1 := by
    split <;> omega
  have hopened : Advance env lo site.segment s
      (s.openMark env.source (.link image) (s.place + if image then 2 else 1)) :=
    Advance.openMark hs (by simp) hlt hroom (Nat.le_trans hroom hsize)
  show Advance env lo site.segment s (if s.hasRoom then _ else _)
  split
  · exact hopened.congr rfl rfl rfl
  · exact hopened

theorem linkCloseRule_sound : (linkCloseRule env s site).Sound env lo site.segment s := by
  have hlen := ht.length_rest he
  have hsize := ht.le_size he
  unfold linkCloseRule
  dsimp only
  split
  · rename_i d cs hrest
    rw [hrest, List.length_cons, List.length_cons] at hlen
    split
    · trivial
    rename_i n hgroup
    have hlt := groupLength?_lt hgroup
    split
    · trivial
    rename_i above d below hfound
    obtain ⟨hd, hbelow, habove⟩ := hs.found hfound
    have hopen : Run env.source.Holds d.span.start d.span.stop
        [leafOf env.source .linkMark d.span.start d.span.stop] :=
      leafOf_run (Nat.le_of_lt hd.lt) hd.stop_le
    have hmiddle : Run env.source.Holds s.place (s.place + 2)
        [leafOf env.source .linkMark s.place (s.place + 1),
          leafOf env.source .linkMark (s.place + 1) (s.place + 2)] :=
      (leafOf_run (by omega) (by omega)).append (leafOf_run (by omega) (by omega))
    have hurl : Run env.source.Holds (s.place + 2) (s.place + 2 + n)
        (if s.place + 2 < s.place + 2 + n then
          [leafOf env.source .url (s.place + 2) (s.place + 2 + n)] else []) :=
      optionalLeaf_run (by omega) (by omega)
    have hclose : Run env.source.Holds (s.place + 2 + n) (s.place + 2 + n + 1)
        [leafOf env.source .linkMark (s.place + 2 + n) (s.place + 2 + n + 1)] :=
      leafOf_run (by omega) (by omega)
    have hnode := fun kind => markup_run kind
      ((((hopen.append habove.settle).append hmiddle).append hurl).append hclose)
      (List.cons_ne_nil _ _)
    refine ⟨hbelow.push (hnode _) (Braced.markup ?_), ?_, .inl ⟨?_, rfl⟩⟩
    · split <;> decide
    · show s.place < s.place + 2 + n + 1
      omega
    · show s.place + 2 + n + 1 ≤ _
      omega
  · trivial

theorem addressRule_sound : (addressRule env s site).Sound env lo site.segment s := by
  have hlen := ht.length_rest he
  have hsize := ht.le_size he
  unfold addressRule
  split
  · trivial
  rename_i n haddress
  have hlt := addressLength?_lt haddress
  rw [List.length_tail] at hlt
  have hopen : Run env.source.Holds s.place (s.place + 1)
      [leafOf env.source .linkMark s.place (s.place + 1)] := leafOf_run (by omega) (by omega)
  have hurl : Run env.source.Holds (s.place + 1) (s.place + 1 + n)
      [leafOf env.source .url (s.place + 1) (s.place + 1 + n)] := leafOf_run (by omega) (by omega)
  have hclose : Run env.source.Holds (s.place + 1 + n) (s.place + 1 + n + 1)
      [leafOf env.source .linkMark (s.place + 1 + n) (s.place + 1 + n + 1)] :=
    leafOf_run (by omega) (by omega)
  exact Advance.ofNode hs
    (markup_run .autolink (hopen.append (hurl.append hclose)) (List.cons_ne_nil _ _))
    (Braced.markup (by decide)) rfl rfl (by show s.place < s.place + 1 + n + 1; omega)
    (by show s.place + 1 + n + 1 ≤ _; omega)

theorem dashRule_sound : (dashRule env s site).Sound env lo site.segment s := by
  have hlen := ht.length_rest he
  have hsize := ht.le_size he
  have hwidth := runLength_le (· == '-') site.rest
  unfold dashRule
  split
  · rename_i hthree
    have hcount := eq_of_beq hthree
    exact Advance.pushLeaf hs (by decide) (by omega) (by omega) (by omega)
  · trivial

theorem commentRule_sound : (commentRule env s site).Sound env lo site.segment s := by
  unfold commentRule
  split
  · exact Advance.pushLeaf hs (by decide) ht.lt (Nat.le_refl _) (ht.le_size he)
  · trivial

/-- The end of a body moves on, with the brace of another body if one follows. -/
theorem closeBodyRule_sound : (closeBodyRule env s site).Sound env lo site.segment s := by
  have hlen := ht.length_rest he
  have hsize := ht.le_size he
  have hlt := ht.lt
  unfold closeBodyRule
  dsimp only
  split
  · trivial
  split
  · trivial
  rename_i above d below hfound
  obtain ⟨hd, hbelow, habove⟩ := hs.found hfound
  have hclose : Run env.source.Holds s.place (s.place + 1)
      [leafOf env.source .rightBrace s.place (s.place + 1)] := leafOf_run (by omega) (by omega)
  have hblock := Stack.closeBody hd hbelow habove hclose (by
    intro n hn
    rw [List.mem_singleton.mp hn]
    exact Braced.leafOf (by decide))
  -- whatever follows, the body is closed first
  generalize hs' : ({ s with parts := .done (.markup .contentBlock (leafOf env.source .leftBrace
      d.span.start d.span.stop :: settle env.source above ++
        [leafOf env.source .rightBrace s.place (s.place + 1)])) :: below } : State) = s'
  have hstack : Stack env.source lo (s.place + 1)
      ((s'.shift (.closing .brace)).jump (s.place + 1)).parts := by
    rw [← hs']
    exact hblock
  have hsegments : ((s'.shift (.closing .brace)).jump (s.place + 1)).segments = s.segments := by
    rw [← hs']
    rfl
  generalize hclosed : (s'.shift (.closing .brace)).jump (s.place + 1) = closed at hstack hsegments
  have hplace : closed.place = s.place + 1 := by rw [← hclosed]; rfl
  have hfinish : Advance env lo site.segment s (closed.finishCommand env.source) := by
    obtain ⟨hsame, hkept⟩ := finishCommand_place env.source closed
    refine ⟨?_, ?_, .inl ⟨?_, hkept.trans hsegments⟩⟩
    · rw [hsame, hplace]
      exact hstack.finishCommand
    · rw [hsame, hplace]
      exact Nat.lt_succ_self _
    · rw [hsame, hplace]
      exact hlt
  split
  · exact hfinish
  · rename_i cs _ htail
    have htwo := congrArg List.length htail
    rw [List.length_tail, List.length_cons] at htwo
    refine ⟨openBody_stack hstack (by omega), ?_, .inl ⟨?_, hsegments⟩⟩
    · show s.place < s.place + 1 + 1
      omega
    · show s.place + 1 + 1 ≤ site.segment.stop
      omega
  · exact hfinish

/-- **Every rule moves on** where all rules are active. -/
theorem fullRule_sound {c : Char} {cs : List Char} (hrest : site.rest = c :: cs) :
    (fullRule env s site c).Sound env lo site.segment s := by
  have hlen := ht.length_rest he
  have hlt := ht.lt
  unfold fullRule
  refine .ite (fun _ => escapeRule_sound he hs ht) ?_
  refine .ite (fun _ => commandRule_sound he hs ht (by decide) (by decide)) ?_
  refine .ite (fun _ => .ite (fun _ => commandRule_sound he hs ht (by decide) (by decide)) trivial) ?_
  refine .ite (fun _ => commandRule_sound he hs ht (by decide) (by decide)) ?_
  refine .ite (fun _ => referenceRule_sound he hs ht) ?_
  refine .ite (fun _ => mathRule_sound he hs ht) ?_
  refine .ite (fun hc => codeRule_sound he hs ht hrest (eq_of_beq hc)) ?_
  refine .ite (fun _ => emphasisRule_sound he hs ht hrest) ?_
  refine .ite (fun _ => strikeRule_sound he hs ht) ?_
  refine .ite (fun _ => linkOpenRule_sound he hs ht hlt) ?_
  refine .ite (fun _ => .ite (fun hnext => linkOpenRule_sound he hs ht ?_) trivial) ?_
  · -- the bracket behind the exclamation mark is there
    have htwo := (List.getElem?_eq_some_iff.mp (eq_of_beq hnext)).1
    show s.place + 2 ≤ site.segment.stop
    omega
  refine .ite (fun _ => linkCloseRule_sound he hs ht) ?_
  refine .ite (fun _ => addressRule_sound he hs ht) ?_
  refine .ite (fun _ => dashRule_sound he hs ht) ?_
  refine .ite (fun _ => commentRule_sound he hs ht) ?_
  exact .ite (fun _ => closeBodyRule_sound he hs ht) trivial

/-- **Every rule moves on** in a formula. -/
theorem templateRule_sound {c : Char} : (templateRule env s site c).Sound env lo site.segment s := by
  have hlen := ht.length_rest he
  have hsize := ht.le_size he
  unfold templateRule
  refine .ite (fun _ => .ite (fun hnext => ?_) trivial) ?_
  · have htwo : 2 ≤ site.rest.length := by
      rcases (Bool.or_eq_true _ _).mp hnext with hnext | hnext
      · exact (List.getElem?_eq_some_iff.mp (eq_of_beq hnext)).1
      · exact (List.getElem?_eq_some_iff.mp (eq_of_beq hnext)).1
    exact Advance.pushLeaf hs (by decide) (by omega) (by omega) (by omega)
  refine .ite (fun _ => commandRule_sound he hs ht (by decide) (by decide)) ?_
  exact .ite (fun _ => closeBodyRule_sound he hs ht) trivial

omit he hs ht in
/-- Literal braces change nothing but what surrounds a place. -/
theorem openBraces_same (n : Nat) (s : State) :
    (openBraces n s).parts = s.parts ∧ (openBraces n s).place = s.place ∧
      (openBraces n s).segments = s.segments := by
  induction n generalizing s with
  | zero => exact ⟨rfl, rfl, rfl⟩
  | succ n ih => exact ih (s.shift (.opening .brace))

/-- Plain text moves on by at least one character. -/
theorem plainText_sound {c : Char} : Advance env lo site.segment s (plainText env s site c) := by
  have hlen := ht.length_rest he
  have hsize := ht.le_size he
  have hlt := ht.lt
  have hrun := plainRun_le s.nesting.inHead s.nesting.inBody 0 site.rest
  unfold plainText
  generalize plainRun s.nesting.inHead s.nesting.inBody 0 site.rest = run at hrun
  obtain ⟨n, opened⟩ := run
  dsimp only at hrun ⊢
  split
  · obtain ⟨hparts, hplace, hsegments⟩ := openBraces_same opened s
    have htext : Advance env lo site.segment s (s.pushLeaf env.source .text (s.place + n)) :=
      Advance.pushLeaf hs (by decide) (by omega) (by omega) (by omega)
    refine htext.congr rfl ?_ hsegments
    show .done (leafOf _ _ (openBraces opened s).place _) :: (openBraces opened s).parts = _
    rw [hparts, hplace]
    rfl
  · have htext : Advance env lo site.segment s (s.pushLeaf env.source .text (s.place + 1)) :=
      Advance.pushLeaf hs (by decide) (by omega) (by omega) (by omega)
    exact htext.congr rfl rfl rfl

end Rules

/-! ## Reading a region -/

/-- The stretches that are left: the place is not behind the first, and the last ends where the region
does.  Once none is left, so does the place. -/
def Ahead (stop place : Nat) : List Span → Prop
  | [] => place = stop
  | segment :: later =>
    place ≤ segment.stop ∧ Lines segment.stop stop later ∧ lastStop segment.stop later = stop

/-- **The invariant of reading a region.**  The parts cover the text up to the place, and the stretches that
are left reach from there to the end. -/
structure State.Sound (env : Env) (lo : Nat) (s : State) : Prop where
  stack : Stack env.source lo s.place s.parts
  ahead : Ahead env.stop s.place s.segments

/-- How many steps are left at most. -/
def stepsLeft (env : Env) (s : State) : Nat :=
  env.stop - s.place + s.segments.length

/-- No stretch that is left ends behind the region. -/
theorem Ahead.stop_le {stop place : Nat} {segment : Span} {later : List Span}
    (h : Ahead stop place (segment :: later)) : segment.stop ≤ stop :=
  h.2.1.le

/-- Stretches that end before a place within the region may be left behind. -/
theorem Ahead.skip {stop before place : Nat} {segment : Span} {later : List Span}
    (h : Ahead stop before (segment :: later)) (hplace : place ≤ stop) :
    Ahead stop place (State.jumpAcross.skip place (segment :: later)) ∧
      (State.jumpAcross.skip place (segment :: later)).length ≤ (segment :: later).length := by
  induction later generalizing before segment with
  | nil =>
      have hstop : segment.stop = stop := h.2.2
      exact ⟨⟨by omega, h.2.1, h.2.2⟩, Nat.le_refl _⟩
  | cons next later ih =>
      obtain ⟨_, hlines, hlast⟩ := h
      rw [State.jumpAcross.skip]
      split
      · rw [lastStop_cons] at hlast
        have hnext : Ahead stop segment.stop (next :: later) :=
          ⟨Nat.le_trans hlines.1 hlines.2.1, hlines.2.2, hlast⟩
        obtain ⟨hahead, hlen⟩ := ih hnext
        exact ⟨hahead, Nat.le_succ_of_le hlen⟩
      · exact ⟨⟨by omega, hlines, hlast⟩, Nat.le_refl _⟩

/-- What an advance leaves: the invariant, and fewer steps. -/
theorem Advance.sound {segment : Span} {later : List Span} {s' : State}
    (h : Advance env lo segment s s') (hsegments : s.segments = segment :: later)
    (hahead : Ahead env.stop s.place (segment :: later)) :
    s'.Sound env lo ∧ stepsLeft env s' < stepsLeft env s := by
  have hforth := h.forth
  unfold stepsLeft
  rw [hsegments]
  rcases h.within with ⟨hle, hsame⟩ | ⟨hle, hskip⟩
  · have hstop := hahead.stop_le
    refine ⟨⟨h.stack, ?_⟩, ?_⟩
    · rw [hsame, hsegments]
      exact ⟨hle, hahead.2⟩
    · rw [hsame, hsegments]
      omega
  · obtain ⟨hleft, hlen⟩ := hahead.skip hle
    refine ⟨⟨h.stack, ?_⟩, ?_⟩
    · rw [hskip, hsegments]
      exact hleft
    · rw [hskip, hsegments]
      omega

/-- What an advance leaves, also if it is noted for what surrounds the place. -/
theorem Advance.sound_shift {segment : Span} {later : List Span} {s' : State} (c : Char)
    (h : Advance env lo segment s s') (hsegments : s.segments = segment :: later)
    (hahead : Ahead env.stop s.place (segment :: later)) :
    (if c == '}' || c == '{' then s' else s'.shift .other : State).Sound env lo ∧
      stepsLeft env (if c == '}' || c == '{' then s' else s'.shift .other) < stepsLeft env s := by
  split
  · exact h.sound hsegments hahead
  · exact (h.congr rfl rfl rfl : Advance env lo segment s (s'.shift .other)).sound hsegments hahead

/-- The end of a stretch leaves it behind, with the line break after it. -/
theorem nextSegment_sound {segment : Span} {later : List Span} (he : env.Sound)
    (hs : Stack env.source lo s.place s.parts) (hsegments : s.segments = segment :: later)
    (hahead : Ahead env.stop s.place (segment :: later)) (hplace : segment.stop ≤ s.place) :
    (nextSegment env s segment later).Sound env lo ∧
      stepsLeft env (nextSegment env s segment later) < stepsLeft env s := by
  obtain ⟨hle, hlines, hlast⟩ := hahead
  have heq : s.place = segment.stop := by omega
  have hregion := he.stop_le
  unfold stepsLeft
  rw [hsegments]
  unfold nextSegment
  split
  · refine ⟨⟨hs, ?_⟩, ?_⟩
    · show s.place = env.stop
      rw [heq]
      exact hlast
    · simp only [List.length_nil, List.length_cons]
      omega
  · rename_i next rest
    obtain ⟨hbehind, hnext, hrest⟩ := hlines
    rw [lastStop_cons] at hlast
    have hbound := hrest.le
    have hstack : Stack env.source lo next.start
        ((if segment.stop < next.start then
          ({ s with segments := next :: rest } : State).push
            (leafOf env.source .newline segment.stop next.start)
          else { s with segments := next :: rest }).parts) := by
      rw [heq] at hs
      split
      · exact hs.pushDone (leafOf_run (by omega) (by omega)) (Braced.leafOf (by decide))
      · obtain hsame : segment.stop = next.start := by omega
        rw [← hsame]
        exact hs
    have hkept : (if segment.stop < next.start then
          ({ s with segments := next :: rest } : State).push
            (leafOf env.source .newline segment.stop next.start)
          else { s with segments := next :: rest }).segments = next :: rest := by
      split <;> rfl
    refine ⟨⟨hstack, ?_⟩, ?_⟩
    · show Ahead env.stop next.start (State.segments (if _ then _ else _))
      rw [hkept]
      exact ⟨hnext, hrest, hlast⟩
    · show env.stop - next.start + (State.segments (if _ then _ else _)).length < _
      rw [hkept]
      simp only [List.length_cons]
      omega

/-- **A step keeps the invariant** and leaves fewer steps. -/
theorem step_sound {segment : Span} {later : List Span} (he : env.Sound) (hs : s.Sound env lo)
    (hsegments : s.segments = segment :: later) :
    (step env s segment later).Sound env lo ∧
      stepsLeft env (step env s segment later) < stepsLeft env s := by
  have hahead := hs.ahead
  rw [hsegments] at hahead
  have hregion := he.stop_le
  have hstop := hahead.stop_le
  unfold step
  split
  · rename_i hplace
    exact nextSegment_sound he hs.stack hsegments hahead hplace
  rename_i hplace
  have hlt : s.place < segment.stop := by omega
  split
  · have htext : Advance env lo segment s (s.pushLeaf env.source .text segment.stop) :=
      Advance.pushLeaf hs.stack (by decide) hlt (Nat.le_refl _) (by omega)
    exact htext.sound hsegments hahead
  dsimp only
  split
  · rename_i hrest
    have hlen := env.source.length_slice (i := s.place) (Nat.le_trans hstop hregion)
    rw [hrest, List.length_nil] at hlen
    omega
  rename_i c cs hrest
  have ht : (Site.mk segment (env.source.slice s.place segment.stop)).Sound env s :=
    ⟨hlt, hstop, rfl⟩
  have hplain := (plainText_sound (c := c) he hs.stack ht).sound hsegments hahead
  -- what was noted makes no difference to the plain text
  have hnote : Stack env.source lo (s.note (some s.place)).place (s.note (some s.place)).parts :=
    hs.stack
  have hsite : (Site.mk segment (env.source.slice s.place segment.stop)).Sound env
      (s.note (some s.place)) := ⟨hlt, hstop, rfl⟩
  have hnoted := (plainText_sound (c := c) he hnote hsite).sound hsegments hahead
  cases env.mode with
  | full =>
      have hverdict := fullRule_sound he hs.stack ht hrest
      dsimp only
      cases hfound : fullRule env s ⟨segment, env.source.slice s.place segment.stop⟩ c with
      | claimed s' =>
          rw [hfound] at hverdict
          exact hverdict.sound_shift c hsegments hahead
      | declined => exact hplain
      | tooDeep => exact hnoted
  | template =>
      have hverdict := templateRule_sound (c := c) he hs.stack ht
      dsimp only
      cases hfound : templateRule env s ⟨segment, env.source.slice s.place segment.stop⟩ c with
      | claimed s' =>
          rw [hfound] at hverdict
          exact hverdict.sound_shift c hsegments hahead
      | declined => exact hplain
      | tooDeep => exact hnoted

/-- **A region is read to its end** if there are enough steps. -/
theorem readRegion_sound (fuel : Nat) (he : env.Sound) (hs : s.Sound env lo)
    (hfuel : stepsLeft env s ≤ fuel) :
    Stack env.source lo env.stop (readRegion env fuel s).parts := by
  induction fuel generalizing s with
  | zero =>
      have hnone : s.segments = [] := by
        rw [← List.length_eq_zero_iff]
        unfold stepsLeft at hfuel
        omega
      have hahead := hs.ahead
      rw [hnone] at hahead
      have hplace : s.place = env.stop := hahead
      rw [← hplace]
      exact hs.stack
  | succ fuel ih =>
      unfold readRegion
      split
      · rename_i hnone
        have hahead := hs.ahead
        rw [hnone] at hahead
        have hplace : s.place = env.stop := hahead
        rw [← hplace]
        exact hs.stack
      · rename_i segment later hsegments
        obtain ⟨hnext, hless⟩ := step_sound he hs hsegments
        exact ih hnext (by omega)

/-- Closing the commands left open keeps what the parts cover. -/
theorem closeCommands_stack {hi : Nat} (fuel : Nat) (hs : Stack env.source lo hi s.parts) :
    Stack env.source lo hi (closeCommands env fuel s).parts := by
  induction fuel generalizing s with
  | zero => exact hs
  | succ fuel ih =>
      unfold closeCommands
      split
      · exact hs
      · rename_i above d below hfound
        obtain ⟨hd, hbelow, habove⟩ := hs.found hfound
        split
        · have hblock := Stack.closeBody hd hbelow habove (Run.nil hi)
            (fun _ h => absurd h List.not_mem_nil)
          rw [List.append_nil] at hblock
          exact ih (Stack.finishCommand hblock)
        · exact ih hs.degradeCommand

/-- A region starts with all of its stretches ahead. -/
theorem State.Sound.start {segments : List Span} (h : Region lo env.stop segments) :
    (State.start segments).Sound env lo := by
  refine ⟨?_, ?_⟩
  · show Stack env.source lo ((segments.head?.map Span.start).getD 0) []
    rw [h.head_start]
    exact Stack.nil lo
  · show Ahead env.stop ((segments.head?.map Span.start).getD 0) segments
    rw [h.head_start]
    obtain ⟨first, later, rfl, _, hle, hlater, hlast⟩ := h
    exact ⟨hle, hlater, hlast⟩

/-- There are steps enough for a region. -/
theorem stepsLeft_start {env : Env} {segments : List Span}
    (hstop : env.stop = (segments.getLast?.map Span.stop).getD 0) :
    stepsLeft env (.start segments) < regionSteps segments := by
  have hsum : (segments.getLast?.map Span.stop).getD 0 + segments.length < regionSteps segments := by
    clear hstop
    induction segments with
    | nil => exact Nat.one_pos
    | cons first later ih =>
        rw [regionSteps, List.length_cons]
        cases later with
        | nil => exact Nat.lt_succ_self _
        | cons next later =>
            rw [List.getLast?_cons_cons]
            omega
  unfold stepsLeft
  show env.stop - (State.start segments).place + segments.length < _
  omega

/-- The nodes of a region cover it, given that those of the regions inside it do. -/
theorem readInline_run {src : Source} {nested : Span → Mode → Limited (List Node)}
    {lo hi : Nat} {segments : List Span} (hnested : NestedRuns src nested)
    (hregion : Region lo hi segments) (hhi : hi ≤ src.size) (mode : Mode) :
    Run src.Holds lo hi (readInline src nested segments mode).value := by
  unfold readInline
  dsimp only
  rw [hregion.last_stop]
  generalize henv : Env.mk src mode hi (isAllWhite (src.after hi)) nested = env
  obtain rfl : env.source = src := by rw [← henv]
  obtain rfl : env.stop = hi := by rw [← henv]
  have he : env.Sound := ⟨hhi, by rw [← henv]; exact hnested⟩
  have hstart : (State.start segments).Sound env lo := .start hregion
  have hread := readRegion_sound _ he hstart (Nat.le_of_lt (stepsLeft_start hregion.last_stop.symm))
  exact (closeCommands_stack _ hread).settle

/-- **The nodes of inline content cover it**, however deep regions may be inside each other. -/
theorem inlineNodes_run {src : Source} (levels : Nat) {lo hi : Nat} {segments : List Span}
    (hregion : Region lo hi segments) (hhi : hi ≤ src.size) (mode : Mode) :
    Run src.Holds lo hi (inlineNodes src levels segments mode).value := by
  induction levels generalizing lo hi segments mode with
  | zero =>
      refine readInline_run ?_ hregion hhi mode
      exact fun inner _ hle hstop => leafOf_run hle hstop
  | succ levels ih =>
      refine readInline_run ?_ hregion hhi mode
      exact fun inner mode hle hstop => ih (Region.single hle) hstop mode

end ComponentMarkup.Markup
