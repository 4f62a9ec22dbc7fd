import ComponentMarkup.Proofs.Markup.MarkPairs

/-!
# Marks are whole runs

A rule for marks measures the run of characters in front of it.  What it finds is a whole run, as far as the line goes
on behind it.  Before it, no star, underscore or backtick can have been left to a text, for those are left in whole
runs.  Hyphens, tildes and dollar signs are left one by one: of a run that is too long, the end is a mark.

* `Placed.whole` — a mark is a whole run, and so is the dollar sign that opens a formula;
* `Placed.text_ends` — no text ends within a run of stars, underscores or backticks;
* `inlineNodes_whole_runs` — marks are whole runs, if no run of hyphens, tildes or dollar signs is longer than a mark.
-/

namespace ComponentMarkup.Tree

/-- Kinds of leaves that are marks: runs of one character. -/
def MarkupKind.isRun : MarkupKind → Bool
  | .special | .codeMark | .emphMark => true
  | _ => false

/-- Most kinds are none of marks. -/
theorem MarkupKind.isRun_eq_false {kind : MarkupKind}
    (h : (kind.isFree || kind.isSign || kind.isWrapper || kind.isCommand) = true) : kind.isRun = false := by
  revert h
  cases kind <;> decide

/-- A node that is no mark. -/
def Node.IsPlain (n : Node) : Prop :=
  ∃ kind, n.kind = .markup kind ∧ kind.isRun = false

end ComponentMarkup.Tree

namespace ComponentMarkup.Markup

open ComponentMarkup.Text ComponentMarkup.Tree

variable {deep : Prop} {r r' : Reading} {nodes nodes' : List Node} {n m : Node} {src : Source} {segment inner : Span}
  {c : Char} {a b p : Nat}

/-! ## What marks are -/

/-- What a mark of some kind is made of, and how long it is. -/
def IsRunOf (c : Char) (width : Nat) : MarkupKind → Prop
  | .special => c = '-' ∧ width = 3
  | .codeMark => c = '\x60'
  | .emphMark => ∃ kind, IsMarked kind c width
  | _ => False

/-- A mark of a region with all rules: a whole run, as far as the line goes on behind it. -/
def StandsAsRun (r : Reading) (n : Node) : Prop :=
  r.mode = .full ∧ ∃ kind c, n.kind = .markup kind ∧ IsRunOf c (n.stop - n.start) kind ∧
    ∃ segment ∈ r.segments, WholeRun r.source segment c n.start n.stop

/-- What a mark is made of is no brace and no dollar sign. -/
theorem IsRunOf.plain {width : Nat} {kind : MarkupKind} (h : IsRunOf c width kind) : c ≠ '}' ∧ c ≠ '$' := by
  cases kind with
  | special => exact h.1 ▸ by decide
  | codeMark => exact (show c = '\x60' from h) ▸ by decide
  | emphMark =>
      obtain ⟨_, ⟨rfl | rfl, _⟩ | ⟨rfl, _⟩⟩ := h <;> decide
  | _ => exact absurd h not_false

/-- The nodes of heads are no marks. -/
theorem HeadNode.isPlain {head : Head} (h : HeadNode src head n) : n.IsPlain := by
  obtain ⟨kind, hkind, hhead⟩ := h.isHead
  refine ⟨kind, hkind, ?_⟩
  revert hhead
  cases kind <;> decide

theorem Made.run_or_plain (h : Made deep r n) : StandsAsRun r n ∨ n.IsPlain := by
  cases h with
  | text => exact .inr ⟨.text, rfl, rfl⟩
  | newline => exact .inr ⟨.newline, rfl, rfl⟩
  | line => exact .inr ⟨.lineContent, rfl, rfl⟩
  | formula => exact .inr ⟨.mathInline, rfl, rfl⟩
  | @brace _ kind _ kinds => exact .inr ⟨kind, rfl, by rcases kinds with rfl | rfl <;> rfl⟩
  | @free _ kind _ _ kinds => exact .inr ⟨kind, rfl, MarkupKind.isRun_eq_false (by simp [kinds])⟩
  | @sign _ kind _ _ kinds => exact .inr ⟨kind, rfl, MarkupKind.isRun_eq_false (by simp [kinds])⟩
  | @wrapper _ kind _ kinds => exact .inr ⟨kind, rfl, MarkupKind.isRun_eq_false (by simp [kinds])⟩
  | @command _ kind _ _ _ _ kinds => exact .inr ⟨kind, rfl, MarkupKind.isRun_eq_false (by simp [kinds])⟩
  | @marked _ kind _ _ _ _ _ _ _ _ kinds =>
      exact .inr ⟨kind, rfl, by rcases kinds with ⟨-, ⟨rfl, -⟩ | ⟨rfl, -⟩⟩ | ⟨-, rfl, -⟩ <;> rfl⟩
  | @run _ kind segment c a b full kinds mem whole =>
      refine .inl ⟨full, kind, c, rfl, ?_, segment, mem, whole⟩
      rcases kinds with ⟨rfl, rfl, rfl⟩ | ⟨rfl, rfl⟩
      · exact ⟨rfl, Nat.add_sub_cancel_left a 3⟩
      · exact rfl

theorem Detail.run_or_plain (h : Detail deep r n) : StandsAsRun r n ∨ n.IsPlain := by
  cases h with
  | @mark kind segment mark a width full kinds mem flanks =>
      refine .inl ⟨full, .emphMark, mark, rfl, ⟨kind, ?_⟩, segment, mem, flanks.whole⟩
      show IsMarked kind mark (a + width - a)
      rwa [Nat.add_sub_cancel_left]
  | dollar => exact .inr ⟨.mathDelim, rfl, rfl⟩
  | content => exact .inr ⟨.mathContent, rfl, rfl⟩
  | head _ mem within => exact .inr ((HeadNode.of_mem_nodes mem) n within).isPlain

/-- What the rules make without emphasis holds no marks. -/
theorem Made.throughout_isPlain (h : Made deep r n) (hmode : r.mode = .template) : n.Throughout Node.IsPlain := by
  have hself : Reading.Holds deep r [n] r [n] := .self
  have hall := h.throughout_placed hself (List.mem_singleton_self n) .root
  refine hall.mono fun m hm => ?_
  obtain ⟨r', nodes', root, holds, -, -, hmade | hdetail⟩ := hm
  · obtain rfl := holds.template hmode
    exact hmade.run_or_plain.resolve_left fun hrun => absurd (hmode.symm.trans hrun.1) (by decide)
  · obtain rfl := holds.template hmode
    exact hdetail.run_or_plain.resolve_left fun hrun => absurd (hmode.symm.trans hrun.1) (by decide)

/-- **A mark is a whole run**, as far as the line goes on behind it. -/
theorem Placed.whole (h : Placed deep r nodes n) {kind : MarkupKind} (hkind : n.kind = .markup kind)
    (hrun : kind.isRun = true) : ∃ c, IsRunOf c (n.stop - n.start) kind ∧
      ∃ segment ∈ r.segments, WholeRun r.source segment c n.start n.stop := by
  obtain ⟨r', nodes', root, holds, -, -, hnode⟩ := h
  rcases hnode.elim Made.run_or_plain Detail.run_or_plain with hstands | ⟨kind', hkind', hplain⟩
  · obtain ⟨hfull, kind', c, hkind', hof, hwhole⟩ := hstands
    obtain rfl := Kind.markup.inj (hkind.symm.trans hkind')
    refine ⟨c, hof, holds.outwards (fun _ _ hnested hinside => hnested.whole hinside hof.plain.1) hfull ?_⟩
    rwa [← holds.source]
  · obtain rfl := Kind.markup.inj (hkind.symm.trans hkind')
    exact absurd (hplain.symm.trans hrun) Bool.false_ne_true

/-- The dollar sign that opens a formula is a whole run. -/
theorem Placed.dollar_whole (h : Placed deep r nodes n) (hkind : n.kind = .markup .mathInline) :
    ∃ segment ∈ r.segments, WholeRun r.source segment '$' n.start (n.start + 1) := by
  obtain ⟨r', nodes', root, holds, -, -, hmade⟩ := h.made hkind rfl
  cases hmade with
  | formula full mem opening =>
      refine holds.outwards (fun _ _ hnested hinside => hnested.whole hinside (by decide)) full ⟨_, mem, ?_⟩
      rw [← holds.source]
      exact opening
  | _ => simp_all [MarkupKind.isFree, MarkupKind.isSign, MarkupKind.isWrapper, MarkupKind.isCommand, IsMarked]

/-- Formulas hold no marks. -/
theorem Placed.content_isPlain (h : Placed deep r nodes n) (hkind : n.kind = .markup .mathContent) :
    ∀ leaf ∈ n.leaves, leaf.IsPlain := by
  obtain ⟨r', nodes', root, holds, -, -, hmade | hdetail⟩ := h
  · cases hmade <;>
      simp_all [MarkupKind.isFree, MarkupKind.isSign, MarkupKind.isWrapper, MarkupKind.isCommand, IsMarked]
  · cases hdetail with
    | content parts =>
        intro leaf hleaf
        obtain ⟨child, hchild, hleaf⟩ := Node.mem_leavesOf.mp hleaf
        exact (parts child hchild).throughout_isPlain rfl leaf (Node.within_of_mem_leaves child hleaf).1
    | mark | dollar => exact absurd hkind (by simp)
    | head _ mem within =>
        obtain ⟨kind, hkind', hhead⟩ := ((HeadNode.of_mem_nodes mem) n within).isHead
        obtain rfl := Kind.markup.inj (hkind.symm.trans hkind')
        exact absurd hhead (by decide)

/-! ## What stands before marks -/

/-- A stretch of a region up to a place, behind which a character does not go on. -/
structure StopsAt (src : Source) (c : Char) (b : Nat) (segment : Span) : Prop where
  start_lt : segment.start < b
  stop_le : b ≤ segment.stop
  ends : b < segment.stop → src.chars[b - 1]? = some c → src.chars[b]? ≠ some c

theorem Nested.stopsAt (h : Nested src segment inner) (hc : c ≠ '}') (hstops : StopsAt src c b inner) :
    StopsAt src c b segment := by
  refine ⟨Nat.lt_trans h.start_lt hstops.start_lt, Nat.le_trans hstops.stop_le h.stop_le, fun hlt hlast hnext => ?_⟩
  by_cases hin : b < inner.stop
  · exact hstops.ends hin hlast hnext
  · obtain rfl : b = inner.stop := Nat.le_antisymm hstops.stop_le (Nat.le_of_not_lt hin)
    exact hc (h.behind_brace hlt hnext)

/-- **No text ends within a run of stars, underscores or backticks**, but before a place in a formula, where no marks
are. -/
theorem Made.text_ends {lo hi : Nat} (h : Each (Made deep r) nodes) (hrun : Run r.source.Holds lo hi nodes)
    (hfull : r.mode = .full) {root : Node} (hroot : root ∈ nodes) (hn : root.Within n) (hkind : n.kind = .markup .text)
    (hc : isRunMark c = true) : (∃ segment ∈ r.segments, StopsAt r.source c n.stop segment) ∨
      ∃ leaf ∈ Node.leavesOf nodes, leaf.start ≤ n.stop ∧ n.stop < leaf.stop ∧ leaf.IsPlain := by
  have hplain : c ≠ '}' ∧ c ≠ '$' := by
    simp only [isRunMark, Bool.or_eq_true, beq_iff_eq] at hc
    rcases hc with (rfl | rfl) | rfl <;> decide
  obtain ⟨r', nodes', root', holds, hroot', -, hmade⟩ := (Made.placed h hroot hn).made hkind rfl
  obtain ⟨a, b, rfl, hpieces⟩ := hmade.pieces hkind
  obtain ⟨segment, p, hp, hpiece⟩ := hpieces.last
  have hstart : segment.start < b := Nat.lt_of_le_of_lt hpiece.spot.start_le hpiece.spot.lt
  by_cases hmode : r'.mode = .full
  · have hends := hpiece.run hmode c hc
    rw [holds.source] at hends
    exact .inl (holds.outwards (fun _ _ hnested => hnested.stopsAt hplain.1) hmode
      ⟨segment, hpiece.mem, hstart, hpiece.spot.stop_le, hends⟩)
  cases holds with
  | self => exact absurd hfull hmode
  | line => exact absurd rfl hmode
  | @formula r'' nodes'' above line a₀ b₀ _ holds full mem opening closing lt above_mem within =>
      obtain rfl : segment = ⟨a₀ + 1, b₀⟩ := List.mem_singleton.mp hpiece.mem
      have hstop : b ≤ b₀ := hpiece.spot.stop_le
      by_cases hend : b = b₀
      · -- behind the formula stands a dollar sign
        refine .inl (holds.outwards (fun _ _ hnested => hnested.stopsAt hplain.1) full
          ⟨line, mem, ?_, ?_, fun _ _ hnext => ?_⟩)
        · exact Nat.lt_of_le_of_lt (Nat.le_trans opening.spot.start_le (Nat.le_succ a₀)) hstart
        · show b ≤ line.stop
          exact hend ▸ Nat.le_of_lt closing.2
        · rw [← holds.source] at hnext
          have hchar : r''.source.chars[b]? = some '$' := hend ▸ closing.1
          exact hplain.2 (Option.some.inj (hnext.symm.trans hchar))
      · -- the leaf behind the text stands in the formula, too
        obtain ⟨top, htop, habove⟩ := holds.within above_mem
        have hformula := habove.trans within
        have hcontent := Node.Within.child hformula (List.mem_cons_of_mem _ List.mem_cons_self)
        obtain ⟨-, -, hinner⟩ := ((hformula.tiles (hrun.tiles top htop)).run (List.cons_ne_nil _ _)).of_cons
        obtain ⟨hfrom, htiles, hbehind⟩ := hinner.of_cons
        obtain ⟨hto, -⟩ := hbehind.of_cons
        obtain ⟨leaf, hleaf, hle, hlt⟩ := htiles.leaves.covered (p := b)
          (Nat.le_trans (Nat.le_of_eq hfrom) (Nat.le_of_lt hstart))
          (Nat.lt_of_lt_of_eq (Nat.lt_of_le_of_ne hstop hend) hto)
        refine .inr ⟨leaf, Node.mem_leavesOf.mpr ⟨top, htop, hcontent.leaves leaf hleaf⟩, hle, hlt, ?_⟩
        exact (Made.placed h htop hcontent).content_isPlain rfl leaf hleaf

/-! ## Regions -/

/-- No run of a character in the stretches is longer than that. -/
def RunsUpTo (src : Source) (segments : List Span) (c : Char) (width : Nat) : Prop :=
  ∀ segment ∈ segments, ∀ p, segment.start ≤ p → p + width < segment.stop → ∃ i ≤ width, src.chars[p + i]? ≠ some c

/-- No text of the nodes has the character right before a place of a stretch. -/
def NotBehind (src : Source) (nodes : List Node) (segment : Span) (c : Char) (a : Nat) : Prop :=
  segment.start < a → ∀ t ∈ Node.leavesOf nodes, t.kind = .markup .text → t.start < a → a ≤ t.stop →
    src.chars[a - 1]? ≠ some c

/-- A whole run that is as long as runs get has nothing of it before it. -/
theorem WholeRun.notBehind {segments : List Span} {width : Nat} (h : WholeRun src segment c a b)
    (hmem : segment ∈ segments) (hwidth : b - a = width) (hup : RunsUpTo src segments c width) :
    NotBehind src nodes segment c a := by
  intro hstart _ _ _ _ _ hlast
  have hlt := h.spot.lt
  have hstop := h.spot.stop_le
  obtain ⟨i, hi, hother⟩ := hup segment hmem (a - 1) (by omega) (by omega)
  by_cases hzero : i = 0
  · exact hother (by rw [hzero]; exact hlast)
  · exact hother (h.chars (a - 1 + i) (by omega) (by omega))

/-- Before a run of stars, underscores or backticks that marks, no text has another one. -/
theorem Made.notBehind {lo hi lo' hi' : Nat} (h : Each (Made deep r) nodes) (hrun : Run r.source.Holds lo hi nodes)
    (hlines : Lines lo' hi' r.segments) (hfull : r.mode = .full) (hn : n ∈ Node.leavesOf nodes) (hmark : ¬ n.IsPlain)
    (hmem : segment ∈ r.segments) (hwhole : WholeRun r.source segment c n.start n.stop) (hc : isRunMark c = true) :
    NotBehind r.source nodes segment c n.start := by
  intro hstart t ht htext hbefore hbehind hlast
  have hspot := hwhole.spot
  have hapart : ∀ m ∈ Node.leavesOf nodes, m ≠ n → m.stop ≤ n.start ∨ n.stop ≤ m.start := fun m hm hne =>
    (hrun.leavesOf.apart (joinable_places r.source) hn hm hne).imp (fun h => h.2.1) fun h => h.2.1
  have htouch : t.stop = n.start := by
    rcases hapart t ht (fun heq => absurd (heq ▸ hbefore) (Nat.lt_irrefl _)) with hle | hle
    · exact Nat.le_antisymm hle hbehind
    · exact absurd (Nat.lt_of_lt_of_le hspot.lt hle) (Nat.not_lt_of_lt hbefore)
  obtain ⟨⟨root, hroot, hwithin⟩, -⟩ := Node.within_of_mem_leavesOf _ ht
  rcases Made.text_ends h hrun hfull hroot hwithin htext hc with
    ⟨other, hother, hstops⟩ | ⟨leaf, hleaf, hle, hlt, hplain⟩
  · rw [htouch] at hstops
    have hlt := hstops.start_lt
    have hstop := hstops.stop_le
    have hin := hspot.lt
    have hinside := hspot.stop_le
    obtain rfl : other = segment := hlines.unique (p := n.start - 1) hother hmem (by omega) (by omega)
    exact hstops.ends (Nat.lt_of_lt_of_le hin hinside) hlast (hwhole.chars _ (Nat.le_refl _) hin)
  · rw [htouch] at hle hlt
    obtain rfl : leaf = n := by
      by_contra hne
      have hin := hspot.lt
      rcases hapart leaf hleaf hne with hcross | hcross <;> omega
    exact hmark hplain

/-- **Marks are whole runs.**  Dashes, the marks of emphasis and of code, and the dollar sign that opens a formula are
whole runs as far as the line goes on behind them.  Right before stars, underscores and backticks that mark, no text
has another one; and neither has it before hyphens, tildes and dollar signs that mark, if the region holds no longer run
of them. -/
theorem inlineNodes_whole_runs (src : Source) (levels : Nat) {lo hi : Nat} {segments : List Span}
    (hregion : Region lo hi segments) (hhi : hi ≤ src.size) (hspaced : Spaced src segments) :
    let nodes := (inlineNodes src levels segments .full).value
    (∀ n ∈ Node.leavesOf nodes, ∀ kind, n.kind = .markup kind → kind.isRun = true → ∃ c,
      IsRunOf c (n.stop - n.start) kind ∧ ∃ segment ∈ segments, WholeRun src segment c n.start n.stop ∧
        (isRunMark c = true ∨ RunsUpTo src segments c (n.stop - n.start) → NotBehind src nodes segment c n.start)) ∧
    ∀ root ∈ nodes, ∀ n, root.Within n → n.kind = .markup .mathInline → ∃ segment ∈ segments,
      WholeRun src segment '$' n.start (n.start + 1) ∧
        (RunsUpTo src segments '$' 1 → NotBehind src nodes segment '$' n.start) := by
  intro nodes
  let r : Reading := ⟨src, levels, segments, .full⟩
  have hmade : Each (Made True r) nodes := r.content_made hregion hhi hspaced fun _ => trivial
  have hrun : Run src.Holds lo hi nodes := inlineNodes_run levels hregion hhi .full
  refine ⟨fun n hn kind hkind hruns => ?_, fun root hroot n hwithin hkind => ?_⟩
  · obtain ⟨⟨root, hroot, hwithin⟩, -⟩ := Node.within_of_mem_leavesOf _ hn
    obtain ⟨c, hof, segment, hmem, hwhole⟩ := (Made.placed hmade hroot hwithin).whole hkind hruns
    refine ⟨c, hof, segment, hmem, hwhole, fun hcases => ?_⟩
    rcases hcases with hc | hup
    · refine Made.notBehind hmade hrun hregion.lines rfl hn (fun hplain => ?_) hmem hwhole hc
      obtain ⟨kind', hkind', hdull⟩ := hplain
      obtain rfl := Kind.markup.inj (hkind.symm.trans hkind')
      exact absurd (hdull.symm.trans hruns) Bool.false_ne_true
    · exact hwhole.notBehind hmem rfl hup
  · obtain ⟨segment, hmem, hwhole⟩ := (Made.placed hmade hroot hwithin).dollar_whole hkind
    exact ⟨segment, hmem, hwhole, hwhole.notBehind hmem (Nat.add_sub_cancel_left _ _)⟩

/-- Three hyphens are a dash, and no text before it ends with a hyphen. -/
theorem inlineNodes_whole_runs_dash :
    let src := Source.ofString "a---*b"
    let nodes := (inlineNodes src 3 [⟨0, 6⟩] .full).value
    ∃ n ∈ Node.leavesOf nodes, n.kind = .markup .special ∧ ∃ segment ∈ [(⟨0, 6⟩ : Span)],
      WholeRun src segment '-' n.start n.stop ∧ NotBehind src nodes segment '-' n.start := by
  intro src nodes
  have hsize : src.size = 6 := by decide +kernel
  obtain ⟨n, hn, hkind⟩ : ∃ n ∈ Node.leavesOf nodes, n.kind = .markup .special := by decide +kernel
  obtain ⟨hmarks, -⟩ :=
    inlineNodes_whole_runs src 3 (Region.single (Nat.zero_le 6)) (Nat.le_of_eq hsize.symm) (.singleton _)
  obtain ⟨c, ⟨rfl, hwidth⟩, segment, hmem, hwhole, hbehind⟩ := hmarks n hn .special hkind rfl
  refine ⟨n, hn, hkind, segment, hmem, hwhole, hbehind (.inr ?_)⟩
  have hruns : ∀ p < 3, ∃ i ≤ 3, src.chars[p + i]? ≠ some '-' := by decide +kernel
  rintro other hother p - hp
  obtain rfl := List.mem_singleton.mp hother
  rw [hwidth] at hp ⊢
  exact hruns p (Nat.lt_of_add_lt_add_right hp)

/-- Of four hyphens in a row, the first is a text and the others are a dash. -/
theorem inlineNodes_dash_behind_hyphen :
    let src := Source.ofString "----"
    let content := inlineNodes src 3 [⟨0, 4⟩] .full
    content.overflow = none ∧ ∃ n ∈ Node.leavesOf content.value, n.kind = .markup .special ∧
      ∃ t ∈ Node.leavesOf content.value, t.kind = .markup .text ∧ t.stop = n.start ∧
        src.chars[n.start - 1]? = some '-' := by
  decide +kernel

end ComponentMarkup.Markup
