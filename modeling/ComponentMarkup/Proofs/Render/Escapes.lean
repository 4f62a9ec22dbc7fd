import ComponentMarkup.Document.Grammar
import ComponentMarkup.Proofs.Markup.BlockReadings
import ComponentMarkup.Render.Markup

/-!
# Escapes

A backslash takes away the meaning of an introducer behind it, unless the backslash is escaped itself: a command starts
behind an even number of backslashes only.  What is left of the pair when a text is rendered is the introducer.  The
text does not say what the reader took for an escape, so rendering decides it anew, and comes to the same.

* `unescaped_eq` — what rendering takes from a text, place by place;
* `Reading.Escapes` — what the reader takes for an escape;
* `Pieces.removed_iff` — both are the same in a text that is put together from pieces;
* `document_escapes` — so it is in every text of a document, and no escaped introducer opens a command.
-/

namespace ComponentMarkup.Render

open ComponentMarkup.Text

/-! ## What rendering takes away -/

/-- Whether a place of a text holds a backslash in front of an introducer. -/
def isRemoved (cs : List Char) (i : Nat) : Bool :=
  cs[i]? == some '\\' && cs[i + 1]?.any isIntroducer

/-- The characters of a text at the places where nothing is taken away. -/
def kept (cs : List Char) : List Char :=
  (List.range cs.length).filterMap fun i => if isRemoved cs i then none else cs[i]?

variable {c : Char} {cs : List Char}

theorem kept_cons (c : Char) (cs : List Char) :
    kept (c :: cs) = (if isRemoved (c :: cs) 0 then [] else [c]) ++ kept cs := by
  unfold kept
  rw [List.length_cons, List.range_succ_eq_map, List.filterMap_cons, List.filterMap_map]
  have hlater : (fun i => if isRemoved (c :: cs) i then none else (c :: cs)[i]?) ∘ Nat.succ =
      fun i => if isRemoved cs i then none else cs[i]? := rfl
  rw [hlater]
  by_cases hremoved : isRemoved (c :: cs) 0 = true
  · rw [if_pos hremoved, if_pos hremoved, List.nil_append]
  · rw [if_neg hremoved, if_neg hremoved, List.getElem?_cons_zero, List.singleton_append]

/-- A character that is no backslash is kept. -/
theorem kept_cons_other (h : c ≠ '\\') : kept (c :: cs) = c :: kept cs := by
  rw [kept_cons, if_neg (by simp [isRemoved, h])]
  rfl

/-- **Rendering takes the backslashes in front of introducers from a text**, and nothing else. -/
theorem unescaped_eq (cs : List Char) : unescaped cs = kept cs := by
  fun_induction unescaped cs with
  | case1 => rfl
  | case2 c => rw [kept_cons, if_neg (by simp [isRemoved])]; rfl
  | case3 c d cs hescape ih =>
      obtain ⟨rfl, hintroducer⟩ : c = '\\' ∧ isIntroducer d = true := by simpa using hescape
      have hd : d ≠ '\\' := by
        rintro rfl
        exact absurd hintroducer (by decide)
      rw [kept_cons, if_pos (by simp [isRemoved, hintroducer]), kept_cons_other hd, ih]
      rfl
  | case4 c d cs hplain ih =>
      rw [kept_cons, if_neg (by simpa [isRemoved] using hplain), ih]
      rfl

end ComponentMarkup.Render

namespace ComponentMarkup.Text

variable {src : Source} {start p : Nat}

/-- Backslashes are counted from the start of a line if none stands before it. -/
theorem Clear.slashes_eq (h : Clear src start) (hp : start ≤ p) : slashes src 0 p = slashes src start p := by
  induction p with
  | zero => rw [Nat.le_zero.mp hp]
  | succ p ih =>
      by_cases hstart : start = p + 1
      · rw [← hstart, slashes_self]
        exact h
      · have hle : start ≤ p := by omega
        by_cases hslash : src.chars[p]? = some '\\'
        · rw [slashes_backslash (Nat.zero_le p) hslash, slashes_backslash hle hslash, ih hle]
        · rw [slashes_other hslash, slashes_other hslash]

end ComponentMarkup.Text

namespace ComponentMarkup.Markup

open ComponentMarkup.Text ComponentMarkup.Tree ComponentMarkup.Render

variable {src : Source} {deep : Prop} {r r' : Reading} {nodes nodes' : List Node} {root n m t : Node}
  {segment inner : Span} {a b p : Nat}

/-! ## What the reader takes for an escape -/

/-- The reader passes over a backslash together with the introducer behind it, in a run of plain text. -/
def Reading.Escapes (r : Reading) (p : Nat) : Prop :=
  ∃ a b d, r.TakesPlain a b ∧ a ≤ p ∧ p + 1 < b ∧ r.source.chars[p]? = some '\\' ∧
    r.source.chars[p + 1]? = some d ∧ isIntroducer d = true

/-- A place of a text in the head of a command that became part of the text. -/
def Reading.InHead (r : Reading) (text : Span) (p : Nat) : Prop :=
  ∃ head, r.OpensCommand head ∧ text.start ≤ head.start ∧ head.stop ≤ text.stop ∧ head.start ≤ p ∧ p < head.stop

/-- The piece at a place of a text, and the one behind it. -/
theorem Pieces.piece_at (h : Pieces deep r a b) (hfrom : a ≤ p) (hto : p < b) :
    ∃ segment a' b', Piece deep r segment a' b' ∧ a ≤ a' ∧ a' ≤ p ∧ p < b' ∧ b' ≤ b ∧
      (b' < b → ∃ next c, Piece deep r next b' c) := by
  induction h with
  | one piece =>
      exact ⟨_, _, _, piece, Nat.le_refl _, hfrom, hto, Nat.le_refl _, fun hlt => absurd hlt (Nat.lt_irrefl _)⟩
  | @more _ _ middle _ piece pieces ih =>
      by_cases hin : p < middle
      · refine ⟨_, _, _, piece, Nat.le_refl _, hfrom, hin, Nat.le_of_lt pieces.lt, fun _ => ?_⟩
        cases pieces with
        | one next => exact ⟨_, _, next⟩
        | more next _ => exact ⟨_, _, next⟩
      · obtain ⟨segment, a', b', hpiece, hle, hothers⟩ := ih (Nat.le_of_not_lt hin) hto
        exact ⟨segment, a', b', hpiece, Nat.le_trans (Nat.le_of_lt piece.spot.lt) hle, hothers⟩

/-- No stretch starts where another one ends. -/
theorem Spaced.not_touching {lo hi : Nat} {segments : List Span} {s s' : Span} (h : Spaced src segments)
    (hlines : Lines lo hi segments) (hs : s ∈ segments) (hs' : s' ∈ segments) (hstart : s'.start ≤ s.stop) :
    s'.stop ≤ s.stop := by
  induction segments generalizing lo with
  | nil => exact absurd hs List.not_mem_nil
  | cons line lines ih =>
      obtain ⟨-, hle, hlater⟩ := hlines
      rcases List.mem_cons.mp hs' with rfl | hbelow'
      · rcases List.mem_cons.mp hs with rfl | hbelow
        · exact Nat.le_refl _
        · have hbehind := hlater.mem hbelow
          omega
      · rcases List.mem_cons.mp hs with rfl | hbelow
        · cases lines with
          | nil => exact absurd hbelow' List.not_mem_nil
          | cons next others =>
              obtain ⟨⟨hgap, -⟩, -⟩ := List.isChain_cons_cons.mp h
              obtain ⟨-, hnext, hothers⟩ := hlater
              rcases List.mem_cons.mp hbelow' with rfl | hbelow'
              · omega
              · have hbehind := hothers.mem hbelow'
                omega
        · exact ih h.tail hlater hbelow hbelow'

/-- Where the reader is while it takes a run of plain text. -/
theorem Reading.Fair.takes_plain (h : r.Fair) (htakes : r.TakesPlain a b) :
    ∃ segment ∈ r.segments, segment.start ≤ a ∧ b ≤ segment.stop := by
  obtain ⟨s, segment, later, c, cs, hreaches, hsegments, rfl, hslice, -, -, rfl⟩ := htakes
  obtain ⟨lo, hi, hregion, hhi⟩ := h.region
  have hk := hreaches.keeps hregion hhi h.spaced
  refine ⟨segment, hk.suffix.subset (hsegments ▸ List.mem_cons_self), (hk.place segment later hsegments).1, ?_⟩
  have hlength := plainRun_le s.nesting.inHead s.nesting.inBody 0 (c :: cs)
  rw [← hslice] at hlength ⊢
  have hle := r.source.length_slice_le s.place segment.stop
  have hlt := (Source.of_slice_cons hslice).1
  omega

/-- **Rendering takes from a text what the reader took for escapes.** -/
theorem Pieces.removed_iff (h : Pieces False r a b) (hfair : r.Fair) (hfrom : a ≤ p) (hto : p < b)
    (hhead : ¬ r.InHead ⟨a, b⟩ p) :
    isRemoved (r.source.slice a b) (p - a) = true ↔ r.Escapes p := by
  obtain ⟨segment, a', b', hpiece, hle', hstart, hlt, hle, hnext⟩ := h.piece_at hfrom hto
  obtain ⟨lo, hi, hregion, hhi⟩ := hfair.region
  have hhere : (r.source.slice a b)[p - a]? = r.source.chars[p]? := by
    rw [Source.getElem?_slice (by omega), Nat.add_sub_cancel' hfrom]
  have hbehind : p + 1 < b → (r.source.slice a b)[p - a + 1]? = r.source.chars[p + 1]? := fun hin => by
    rw [Source.getElem?_slice (by omega), ← Nat.add_assoc, Nat.add_sub_cancel' hfrom]
  -- no piece ends between a backslash and an introducer of its line
  have hwithin : ∀ {d}, r.source.chars[p]? = some '\\' → r.source.chars[p + 1]? = some d → isIntroducer d = true →
      p + 1 < segment.stop → p + 1 < b' := by
    intro d hslash hd hintroducer hin
    refine Nat.lt_of_le_of_ne hlt fun hend => ?_
    have hplain := hpiece.escape d (hend ▸ hin) (by rw [← hend]; exact hslash) (hend ▸ hd)
    exact absurd (hplain.symm.trans hintroducer) Bool.false_ne_true
  constructor
  · intro hremoved
    simp only [isRemoved, Bool.and_eq_true, beq_iff_eq, Option.any_eq_true] at hremoved
    obtain ⟨hslash, d, hd, hintroducer⟩ := hremoved
    have hin : p + 1 < b := by
      have hlength := (List.getElem?_eq_some_iff.mp hd).1
      have hle := r.source.length_slice_le a b
      omega
    rw [hhere] at hslash
    rw [hbehind hin] at hd
    have hline : p + 1 < segment.stop := by
      have hspot := hpiece.spot.stop_le
      by_contra hstop
      obtain ⟨next, c, hother⟩ := hnext (by omega)
      have hcross := hfair.spaced.not_touching hregion.lines hpiece.mem hother.mem (by
        have := hother.spot.start_le
        omega)
      have hlt := hother.spot.lt
      have hstop := hother.spot.stop_le
      omega
    have hboth := hwithin hslash hd hintroducer hline
    rcases hpiece.origin with hoverflow | htakes | hopens | hnone
    · exact hoverflow.elim
    · exact ⟨a', b', d, htakes, hstart, hboth, hslash, hd, hintroducer⟩
    · exact absurd ⟨_, hopens, hle', hle, hstart, hlt⟩ hhead
    · exact absurd ((hnone p d hstart hboth hslash hd).symm.trans hintroducer) Bool.false_ne_true
  · rintro ⟨a₀, b₀, d, htakes, hstart₀, hboth₀, hslash, hd, hintroducer⟩
    obtain ⟨line, hmem, hline, hstop⟩ := hfair.takes_plain htakes
    have hspot := hpiece.spot
    obtain rfl : segment = line := hregion.lines.unique (p := p) hpiece.mem hmem
      ⟨Nat.le_trans hspot.start_le hstart, Nat.lt_of_lt_of_le hlt hspot.stop_le⟩ (by omega)
    have hin : p + 1 < b := Nat.lt_of_lt_of_le (hwithin hslash hd hintroducer (by omega)) hle
    rw [isRemoved, hhere, hbehind hin, hslash, hd]
    simpa using hintroducer

/-! ## The regions of a tree -/

/-- Only formulas are read with few rules. -/
theorem modeOf_full {kind : MarkupKind} (h : kind ≠ .mathContent) : modeOf kind = .full := by
  unfold modeOf
  split
  · exact absurd rfl h
  · rfl

namespace Reading

/-- A region inside a line, behind a character that is no backslash. -/
theorem Fair.inside {c : Char} (h : r.Fair) (hmem : segment ∈ r.segments) (hstart : segment.start < inner.start)
    (hlt : inner.start < inner.stop) (hstop : inner.stop ≤ segment.stop)
    (hc : r.source.chars[inner.start - 1]? = some c) (hne : c ≠ '\\') (mode : Mode) : (r.inside inner mode).Fair := by
  obtain ⟨lo, hi, hregion, hhi⟩ := h.region
  refine ⟨⟨_, _, Region.single (Nat.le_of_lt hlt), ?_⟩, .singleton _, List.forall_mem_singleton.mpr ?_⟩
  · exact Nat.le_trans hstop (Nat.le_trans (hregion.lines.mem hmem).2.2 hhi)
  · have hclear := Clear.of_char hc hne
    rwa [Nat.sub_add_cancel (Nat.zero_lt_of_lt hstart)] at hclear

/-- The regions inside a region of a document do not start behind backslashes, either. -/
theorem Holds.fair (h : r.Holds deep nodes r' nodes') (hfair : r.Fair) : r'.Fair := by
  induction h with
  | self => exact hfair
  | line _ _ mem nested _ _ _ ih =>
      obtain ⟨c, hc, hplain⟩ := nested.before
      refine ih.inside mem nested.start_lt nested.lt nested.stop_le hc ?_ .full
      rintro rfl
      exact hplain.elim (absurd · (by decide)) (absurd · (by decide))
  | formula _ _ mem opening closing lt _ _ ih =>
      refine ih.inside mem (Nat.lt_succ_of_le opening.spot.start_le) lt (Nat.le_of_lt closing.2)
        (opening.chars _ (Nat.le_refl _) (Nat.lt_succ_self _)) (by decide) .template

/-- A region of a tree: a node holds what the region is read as, with the rules that the node asks for. -/
def StandsIn (r : Reading) (root : Node) : Prop :=
  ∃ holder kind front back, root.Within holder ∧ holder.kind = .markup kind ∧ r.mode = modeOf kind ∧
    holder.children = front ++ r.content.value ++ back

/-- The nodes that a region of a tree is read as are nodes of the tree. -/
theorem StandsIn.within (h : r.StandsIn root) (hn : n ∈ r.content.value) : root.Within n := by
  obtain ⟨holder, _, front, back, hholder, -, -, hchildren⟩ := h
  refine .child hholder ?_
  rw [hchildren]
  exact List.mem_append_left back (List.mem_append_right front hn)

/-- The regions with all rules inside a region stand in the same tree, each with the nodes that it is read as. -/
theorem Holds.standsIn (h : r.Holds False r.content.value r' nodes') (hr : r.StandsIn root) (hfull : r'.mode = .full) :
    r'.StandsIn root ∧ nodes' = r'.content.value := by
  cases h with
  | self => exact ⟨hr, rfl⟩
  | line holds full mem nested root_mem within read =>
      have hread := read.resolve_left not_false
      refine ⟨?_, hread⟩
      obtain ⟨top, htop, habove⟩ := holds.within root_mem
      refine ⟨_, .lineContent, [], [], (hr.within htop).trans (habove.trans within), rfl, rfl, ?_⟩
      rw [List.nil_append, List.append_nil, ← hread]
      rfl
  | formula => exact absurd hfull (by simp [inside])

end Reading

/-- **A node of a tree of blocks is one of the blocks, or stands in what a region is read as.** -/
theorem Laid.within (h : Laid deep src root) (hn : root.Within n) : Laid deep src n ∨
    ∃ r : Reading, r.source = src ∧ r.Fair ∧ r.content.Calm deep ∧ r.StandsIn root ∧
      ∃ m ∈ r.content.value, m.Within n := by
  induction hn with
  | root => exact .inl h
  | @child n m hparent mem ih =>
      rcases ih with hlaid | ⟨r, hsource, hfair, hcalm, hstands, k, hk, hin⟩
      · cases hlaid with
        | leaf => exact absurd mem List.not_mem_nil
        | branch _ parts => exact .inl (parts m mem)
        | @region kind _ _ _ _ front back levels segments _ fair calm parts =>
            rcases List.mem_append.mp mem with hfront | hback
            · rcases List.mem_append.mp hfront with hfront | hcontent
              · exact .inl (parts m (List.mem_append_left _ hfront))
              · exact .inr ⟨⟨src, levels, segments, modeOf kind⟩, rfl, fair, calm,
                  ⟨_, kind, front, back, hparent, rfl, rfl, rfl⟩, m, hcontent, .root⟩
            · exact .inl (parts m (List.mem_append_right _ hback))
      · exact .inr ⟨r, hsource, hfair, hcalm, hstands, k, hk, .child hin mem⟩

/-! ## Documents -/

/-- A command as the rules make it. -/
theorem Made.commandAt {kind : MarkupKind} (h : Made deep r n) (hn : n.kind = .markup kind)
    (hkind : kind.isCommand = true) : ∃ place width head children, n = .markup kind (head.nodes r.source ++ children) ∧
      CommandAt r place width head ∧ ∀ m ∈ children, Made deep r m := by
  have hkinds : kind = .inlineComponent ∨ kind = .interpolation ∨ kind = .reference := by
    revert hkind
    cases kind <;> decide
  cases h with
  | command _ command parts =>
      obtain rfl := Kind.markup.inj hn
      exact ⟨_, _, _, _, rfl, command, parts⟩
  | _ => rcases hkinds with rfl | rfl | rfl <;>
      simp_all [MarkupKind.isFree, MarkupKind.isSign, MarkupKind.isWrapper, IsMarked]

/-- No node as the rules make it is a sigil. -/
theorem Made.ne_sigil (h : Made deep r n) : n.kind ≠ .markup .sigil := by
  cases h <;> rintro hsigil <;>
    simp_all [MarkupKind.isFree, MarkupKind.isSign, MarkupKind.isWrapper, MarkupKind.isCommand, IsMarked]

/-- The sigil of a command is not escaped, if it starts with an introducer. -/
theorem Made.sigil_even {kind : MarkupKind} {c : Char} (h : Made deep r n) (hfair : r.Fair) (hn : n.kind = .markup kind)
    (hkind : kind.isCommand = true) (hm : m ∈ n.children) (hsigil : m.kind = .markup .sigil)
    (hc : m.text.toList.head? = some c) (hintroducer : isIntroducer c = true) :
    Even (slashes r.source 0 m.start) := by
  obtain ⟨place, width, head, children, rfl, command, parts⟩ := h.commandAt hn hkind
  rcases List.mem_append.mp hm with hm | hm
  · cases (HeadNode.of_mem_nodes hm).here with
    | sigil =>
        obtain ⟨lo, hi, hregion, hhi⟩ := hfair.region
        obtain ⟨line, hmem, hstart, hfresh, hread⟩ := command.line
        have hsize := Nat.le_trans (hregion.lines.mem hmem).2.2 hhi
        obtain ⟨hlt, -⟩ := Head.read?_run hread hsize
        have hpos := command.pos
        rw [(Head.read?_ends hread).sigil] at hc ⊢
        have hplace : r.source.chars[place]? = some c := by
          rw [← Source.head?_slice (j := place + width) (by omega)]
          simpa only [Node.text, leafOf, Source.text, String.toList_ofList] using hc
        show Even (slashes r.source 0 place)
        rw [(hfair.clear line hmem).slashes_eq hstart]
        exact hfresh c (by omega) hplace (.inl hintroducer)
    | held kinds => rcases kinds with rfl | rfl | rfl <;> exact absurd hsigil (by simp)
    | opening kinds => rcases kinds with rfl | rfl <;> exact absurd hsigil (by simp)
    | closing kinds => rcases kinds with rfl | rfl <;> exact absurd hsigil (by simp)
    | group kinds => rcases kinds with rfl | rfl <;> exact absurd hsigil (by simp)
  · exact absurd hsigil (parts m hm).ne_sigil

/-- What stands in a region of a tree was made by the rules in one of the regions that it holds. -/
theorem Reading.Fair.made (h : r.Fair) (hcalm : r.content.Calm deep) (hm : m ∈ r.content.value) (hn : m.Within n)
    {kind : MarkupKind} (hkind : n.kind = .markup kind) (hno : kind.isDetail = false) : ∃ r' nodes' root,
      r.Holds deep r.content.value r' nodes' ∧ root ∈ nodes' ∧ root.Within n ∧ Made deep r' n := by
  obtain ⟨lo, hi, hregion, hhi⟩ := h.region
  exact (Made.placed (r.content_made hregion hhi h.spaced hcalm) hm hn).made hkind hno

/-- No command of a tree of blocks has an escaped sigil. -/
theorem Laid.sigil_even {kind : MarkupKind} {c : Char} (h : Laid deep src root) (hn : root.Within n)
    (hkind : n.kind = .markup kind) (hcommand : kind.isCommand = true) (hm : m ∈ n.children)
    (hsigil : m.kind = .markup .sigil) (hc : m.text.toList.head? = some c) (hintroducer : isIntroducer c = true) :
    Even (slashes src 0 m.start) := by
  rcases h.within hn with hblock | ⟨r, rfl, hfair, hcalm, -, k, hk, hin⟩
  · cases hblock with
    | leaf => exact absurd hm List.not_mem_nil
    | branch kinds => exact absurd (Kind.markup.inj hkind ▸ hcommand) (by simp [kinds])
    | region kinds => exact absurd (Kind.markup.inj hkind ▸ hcommand) (by simp [kinds])
  · have hno : kind.isDetail = false := by
      revert hcommand
      cases kind <;> decide
    obtain ⟨r', nodes', _, holds, -, -, hmade⟩ := hfair.made hcalm hk hin hkind hno
    rw [← holds.source]
    exact hmade.sigil_even (holds.fair hfair) hkind hcommand hm hsigil hc hintroducer

/-- A text of a tree of blocks that stands in no formula was made in a region with all rules, and rendering takes from
it what the reader of that region took for escapes. -/
theorem Laid.text_escapes {text : String} {span : Span} (h : Laid False src root)
    (ht : root.Within (.leaf (.markup .text) text span))
    (hformula : ∀ n, root.Within n → n.kind = .markup .mathContent → ¬ n.Within (.leaf (.markup .text) text span)) :
    ∃ r : Reading, r.source = src ∧ r.mode = .full ∧ r.StandsIn root ∧
      (∃ m ∈ r.content.value, m.Within (.leaf (.markup .text) text span)) ∧
      ∀ p, span.start ≤ p → p < span.stop → ¬ r.InHead span p →
        (isRemoved text.toList (p - span.start) = true ↔ r.Escapes p) := by
  rcases h.within ht with hblock | ⟨r, rfl, hfair, hcalm, hstands, k, hk, hin⟩
  · cases hblock with
    | leaf kinds => exact (kinds rfl).elim
  obtain ⟨r', nodes', above, holds, habove, hwithin, hmade⟩ := hfair.made hcalm hk hin rfl rfl
  have hfull : r'.mode = .full := by
    cases holds with
    | self =>
        obtain ⟨holder, kind, front, back, hholder, hkind, hmode, hchildren⟩ := hstands
        refine hmode.trans (modeOf_full ?_)
        rintro rfl
        refine hformula holder hholder hkind (.trans (.child .root ?_) hwithin)
        rw [hchildren]
        exact List.mem_append_left back (List.mem_append_right front habove)
    | line => rfl
    | formula holds full mem opening closing lt root_mem within =>
        obtain ⟨top, htop, htopWithin⟩ := holds.within root_mem
        have hcontent := Node.Within.child within (List.mem_cons_of_mem _ List.mem_cons_self)
        exact absurd (.trans (.child .root habove) hwithin)
          (hformula _ ((hstands.within htop).trans (htopWithin.trans hcontent)) rfl)
  obtain ⟨a, b, heq, hpieces⟩ := hmade.pieces rfl
  obtain ⟨-, rfl, rfl⟩ := Node.leaf.inj heq
  obtain ⟨hstands', rfl⟩ := holds.standsIn hstands hfull
  refine ⟨r', holds.source, hfull, hstands', ⟨above, habove, hwithin⟩, fun p hfrom hto hhead => ?_⟩
  simp only [Source.text, String.toList_ofList]
  exact hpieces.removed_iff (holds.fair hfair) hfrom hto hhead

/-- **Escapes take away the meaning of introducers, and rendering takes away what escaped them.**  In the tree of a
document that is not nested too deep, no sigil that starts with an introducer stands behind an odd number of
backslashes.  Rendering takes from a text the backslashes that the reader of its region took for escapes, outside of
formulas and of heads of commands that became text. -/
theorem document_escapes (src : Source)
    (hcalm : (Document.Grammar.markup.parse src src.whole "document").overflow = none) :
    let root := (Document.Grammar.markup.parse src src.whole "document").value
    (∀ n, root.Within n → ∀ kind, n.kind = .markup kind → kind.isCommand = true →
      ∀ m ∈ n.children, m.kind = .markup .sigil → ∀ c, m.text.toList.head? = some c → c = '@' ∨ c = '#' ∨ c = '&' →
        Even (slashes src 0 m.start)) ∧
    ∀ text span, root.Within (.leaf (.markup .text) text span) →
      (∀ n, root.Within n → n.kind = .markup .mathContent → ¬ n.Within (.leaf (.markup .text) text span)) →
      plainInline? .text (.leaf (.markup .text) text span) = some (.str (String.ofList (kept text.toList))) ∧
      ∃ r : Reading, r.source = src ∧ r.mode = .full ∧ r.StandsIn root ∧
        (∃ m ∈ r.content.value, m.Within (.leaf (.markup .text) text span)) ∧
        ∀ p, span.start ≤ p → p < span.stop → ¬ r.InHead span p →
          (isRemoved text.toList (p - span.start) = true ↔ r.Escapes p) := by
  intro root
  have hlaid : Laid False src root := readDocument_laid src fun hsome => by
    rw [show (readDocument src src.whole).overflow = none from hcalm] at hsome
    exact absurd hsome (by simp)
  refine ⟨fun n hn kind hkind hcommand m hm hsigil c hc hchar => ?_, fun text span ht hformula => ⟨?_, ?_⟩⟩
  · have hintroducer : isIntroducer c = true := by rcases hchar with rfl | rfl | rfl <;> decide
    exact hlaid.sigil_even hn hkind hcommand hm hsigil hc hintroducer
  · simp only [plainInline?, Node.text, unescaped_eq]
  · exact hlaid.text_escapes ht hformula

/-- An escaped introducer in a text, and one behind it that opens a command. -/
theorem document_escapes_text :
    let src := Source.ofString "a \\# @b"
    let root := (Document.Grammar.markup.parse src src.whole "document").value
    let text := Node.leaf (.markup .text) "a \\# " ⟨0, 5⟩
    plainInline? .text text = some (.str "a # ") ∧ Even (slashes src 0 5) ∧
      ∃ r : Reading, r.source = src ∧ r.StandsIn root ∧ (r.InHead ⟨0, 5⟩ 2 ∨ r.Escapes 2) := by
  intro src root text
  have hcalm : (Document.Grammar.markup.parse src src.whole "document").overflow = none := by decide +kernel
  let command := Node.markup .inlineComponent
    [.leaf (.markup .sigil) "@" ⟨5, 6⟩, .leaf (.markup .commandName) "b" ⟨6, 7⟩]
  have hroot : (readDocument (.ofString "a \\# @b") (Source.ofString "a \\# @b").whole).value =
    .markup .document [.markup .paragraph [.leaf (.markup .text) "a \\# " ⟨0, 5⟩, .markup .inlineComponent
      [.leaf (.markup .sigil) "@" ⟨5, 6⟩, .leaf (.markup .commandName) "b" ⟨6, 7⟩]]] := rfl
  replace hroot : root = .markup .document [.markup .paragraph [text, command]] := hroot
  have hparagraph : root.Within (.markup .paragraph [text, command]) :=
    hroot ▸ .child .root List.mem_cons_self
  have hplain : root.Throughout fun n => n.kind ≠ .markup .mathContent := by
    have hleaf : ∀ {kind : MarkupKind} {t : String} {s : Span}, kind ≠ .mathContent →
        (Node.leaf (.markup kind) t s).Throughout fun n => n.kind ≠ .markup .mathContent := fun h =>
      .intro (fun heq => h (Kind.markup.inj heq)) fun _ hc => absurd hc List.not_mem_nil
    rw [hroot]
    refine .intro (by decide) (List.forall_mem_singleton.mpr (.intro (by decide) ?_))
    refine List.forall_mem_cons.mpr ⟨hleaf (by decide), List.forall_mem_singleton.mpr (.intro (by decide) ?_)⟩
    exact List.forall_mem_cons.mpr ⟨hleaf (by decide), List.forall_mem_singleton.mpr (hleaf (by decide))⟩
  obtain ⟨hsigils, htexts⟩ := document_escapes src hcalm
  obtain ⟨hrendered, r, hsource, -, hstands, -, hescapes⟩ := htexts "a \\# " ⟨0, 5⟩
    (.child hparagraph List.mem_cons_self) fun n hn hkind => absurd hkind (hplain n hn)
  have hkept : String.ofList (kept "a \\# ".toList) = "a # " := by decide +kernel
  refine ⟨hkept ▸ hrendered, ?_, r, hsource, hstands, ?_⟩
  · exact hsigils _ (.child hparagraph (List.mem_cons_of_mem _ List.mem_cons_self)) .inlineComponent rfl rfl _
      List.mem_cons_self rfl '@' (by decide) (.inl rfl)
  · refine Classical.or_iff_not_imp_left.mpr fun hhead => ?_
    exact (hescapes 2 (by decide) (by decide) hhead).mp (by decide +kernel)

end ComponentMarkup.Markup
