import ComponentMarkup.Proofs.Markup.ReadingTrees

/-!
# Marks pair up, or are text

Emphasis stands between two marks of one kind.  A delimiter that opens waits for one that closes; what waits in vain,
what is dropped by a closer in front of it and what a body takes with it becomes text.

* `PairedBy` — a node between two marks;
* `inlineNodes_marks_paired` — every mark of a region is the first or the last child of such a node, and stars,
  underscores and tildes that are no marks are text.
-/

namespace ComponentMarkup.Tree

/-- Kinds of leaves in which stars, underscores and tildes may stand: marks, texts, and what no rule looks into. -/
def MarkupKind.mayHoldMarks : MarkupKind → Bool
  | .emphMark | .text | .escape | .codeText | .url | .lineComment | .verbatimText | .commandName | .nameExpr
  | .inlineAttributes => true
  | _ => false

theorem MarkupKind.mayHoldMarks_of_isFree (kind : MarkupKind) (h : kind.isFree = true) : kind.mayHoldMarks = true := by
  cases kind <;> first | rfl | exact absurd h Bool.false_ne_true

end ComponentMarkup.Tree

namespace ComponentMarkup.Markup

open ComponentMarkup.Text ComponentMarkup.Tree

variable {deep : Prop} {r r' : Reading} {nodes nodes' : List Node} {n m : Node} {src : Source} {segment : Span}
  {mark c : Char} {a b p : Nat}

/-! ## Pairs -/

/-- A node between two marks of the same text: what opens touches what stands behind it, what closes touches what stands
before it, and no other mark stands between them. -/
structure PairedBy (src : Source) (segments : List Span) (n : Node) (mark : Char) (width a b : Nat) : Prop where
  kinds : ∃ kind, n.kind = .markup kind ∧ IsMarked kind mark width
  children : ∃ inner, n.children = leafOf src .emphMark a (a + width) :: inner ++
    [leafOf src .emphMark b (b + width)] ∧ ∀ k ∈ inner, k.kind ≠ .markup .emphMark
  opening_text : src.text ⟨a, a + width⟩ = String.ofList (List.replicate width mark)
  closing_text : src.text ⟨b, b + width⟩ = String.ofList (List.replicate width mark)
  opens : ∃ segment ∈ segments, Opens src segment mark a (a + width)
  closes : ∃ segment ∈ segments, Closes src segment mark b (b + width)

/-- What a mark is made of is no brace. -/
theorem IsMarked.ne_brace {kind : MarkupKind} {width : Nat} (h : IsMarked kind mark width) : mark ≠ '}' := by
  rcases h with ⟨rfl | rfl, _⟩ | ⟨rfl, _⟩ <;> decide

/-- The text of a whole run. -/
theorem WholeRun.text {width : Nat} (h : WholeRun src segment mark a (a + width)) (hsize : segment.stop ≤ src.size) :
    src.text ⟨a, a + width⟩ = String.ofList (List.replicate width mark) := by
  refine congrArg String.ofList (List.eq_replicate_iff.mpr ⟨?_, fun c hc => ?_⟩)
  · have hlen := src.length_slice (i := a) (Nat.le_trans h.spot.stop_le hsize)
    rw [hlen, Nat.add_sub_cancel_left]
  · obtain ⟨p, hp, hlt, hchar⟩ := Source.mem_slice.mp hc
    exact Option.some.inj (hchar.symm.trans (h.chars p hp hlt))

/-- No node that the rules make is a mark. -/
theorem Made.ne_emphMark (h : Made deep r n) : n.kind ≠ .markup .emphMark := by
  cases h with
  | text | newline | line | formula => simp
  | brace kinds | run _ kinds => rcases kinds with h | h <;> simp [h]
  | free kinds | sign kinds | wrapper kinds | command kinds =>
      rintro heq
      obtain rfl := Kind.markup.inj heq
      exact absurd kinds Bool.false_ne_true
  | marked _ kinds => rcases kinds with ⟨_, h | h⟩ | h <;> simp [h]

/-- A single character that is no mark. -/
theorem Markless.single (hc : src.chars[a]? = some c) (hplain : isMark c = false) : Markless src a (a + 1) := by
  intro p d hp hlt hd
  obtain rfl : a = p := Nat.le_antisymm hp (Nat.le_of_lt_succ hlt)
  exact Option.some.inj (hc.symm.trans hd) ▸ hplain

/-- A leaf in which marks may stand, or in which none stands. -/
inductive SparesMarks (src : Source) (n : Node) : Prop where
  | holds (kind : MarkupKind) (eq : n.kind = .markup kind) (holds : kind.mayHoldMarks = true)
  | markless (markless : Markless src n.start n.stop)

/-- A node without children holds no text. -/
theorem SparesMarks.of_markup {kind : MarkupKind} {children : List Node}
    (h : (Node.markup kind children).children = []) : SparesMarks src (.markup kind children) := by
  obtain rfl : children = [] := h
  exact .markless fun p _ _ hlt => absurd hlt (Nat.not_lt_zero p)

/-- The nodes of heads are no marks. -/
theorem HeadNode.ne_emphMark {head : Head} (h : HeadNode src head n) : n.kind ≠ .markup .emphMark := by
  obtain ⟨kind, hkind, hhead⟩ := h.isHead
  rw [hkind]
  rintro heq
  rw [Kind.markup.inj heq] at hhead
  exact absurd hhead (by decide)

/-- The sigil and the brackets of a command are no marks. -/
theorem HeadNode.spares {head : Head} {place width : Nat} (hcommand : CommandAt r place width head)
    (h : HeadNode r.source head n) (hnone : n.children = []) : SparesMarks r.source n := by
  obtain ⟨_, _, _, _, hread⟩ := hcommand.line
  have hends := Head.read?_ends hread
  have hbrackets : ∀ s, head.name = some (.computed s) ∨ head.attributes = some s → Bracketed r.source s :=
    fun s => Or.rec (hends.name s) (hends.attributes s)
  cases h with
  | sigil =>
      refine .markless fun p c hp hlt hc => ?_
      rw [hends.sigil] at hp hlt
      rcases hcommand.sigil p c hp hlt hc with h | rfl
      · simp only [isIntroducer, Bool.or_eq_true, beq_iff_eq] at h
        rcases h with ((rfl | rfl) | rfl) | rfl <;> rfl
      · rfl
  | @held kind a b kinds => exact .holds kind rfl (by rcases kinds with rfl | rfl | rfl <;> rfl)
  | opening _ stretch =>
      show SparesMarks r.source (leafOf ..)
      rcases (hbrackets _ stretch).opening with hchar | hchar
      · exact .markless (.single hchar rfl)
      · exact .markless (.single hchar rfl)
  | @closing _ s _ stretch =>
      obtain ⟨c, hchar, hclosed⟩ := (hbrackets _ stretch).closing
      have hmark : isMark c = false := by
        by_contra hmark
        simp only [isMark, Bool.not_eq_false, Bool.or_eq_true, beq_iff_eq] at hmark
        rcases hmark with (rfl | rfl) | rfl <;> exact absurd hclosed (by decide)
      refine .markless fun p d hp hlt hd => ?_
      have hplace : p = s.stop - 1 := by
        have hp : s.stop - 1 ≤ p := hp
        have hlt : p < s.stop := hlt
        omega
      exact Markless.single hchar hmark p d (Nat.le_of_eq hplace.symm) (by omega) hd
  | group => exact .of_markup hnone

/-! ## Regions -/

/-- A node in what a region is read as has marks as its first and its last child only. -/
theorem Placed.paired (h : Placed deep r nodes n) (hsize : ∀ segment ∈ r.segments, segment.stop ≤ r.source.size)
    (hm : m ∈ n.children) (hmark : m.kind = .markup .emphMark) : ∃ mark width a b,
      PairedBy r.source r.segments n mark width a b ∧
        (m = leafOf r.source .emphMark a (a + width) ∨ m = leafOf r.source .emphMark b (b + width)) := by
  obtain ⟨r', nodes', root, holds, -, -, hmade | hdetail⟩ := h
  · cases hmade with
    | text | brace | run | free | sign | newline => exact absurd hm List.not_mem_nil
    | wrapper _ parts => exact absurd hmark (parts m hm).ne_emphMark
    | @marked _ _ mark width a b _ _ children full kinds opening_mem opens closing_mem closes parts =>
        obtain ⟨opening, hopening, hopens⟩ := holds.outwards
          (P := fun segment => Opens r.source segment mark a (a + width))
          (fun _ _ hnested hopens => hnested.opens hopens kinds.ne_brace) full ⟨_, opening_mem, holds.source ▸ opens⟩
        obtain ⟨closing, hclosing, hcloses⟩ := holds.outwards
          (P := fun segment => Closes r.source segment mark b (b + width))
          (fun _ _ hnested hcloses => hnested.closes hcloses kinds.ne_brace) full
          ⟨_, closing_mem, holds.source ▸ closes⟩
        rw [holds.source] at hm ⊢
        refine ⟨mark, width, a, b, ⟨⟨_, rfl, kinds⟩, ⟨children, rfl, fun k hk => (parts k hk).ne_emphMark⟩, ?_, ?_,
          ⟨opening, hopening, hopens⟩, closing, hclosing, hcloses⟩, ?_⟩
        · exact hopens.whole.text (hsize opening hopening)
        · exact hcloses.whole.text (hsize closing hclosing)
        · rcases List.mem_append.mp hm with hm | hm
          · exact .inl ((List.mem_cons.mp hm).resolve_right fun hin => (parts m hin).ne_emphMark hmark)
          · exact .inr (List.mem_singleton.mp hm)
    | command _ command parts =>
        rcases List.mem_append.mp hm with hm | hm
        · exact absurd hmark (HeadNode.of_mem_nodes hm).here.ne_emphMark
        · exact absurd hmark (parts m hm).ne_emphMark
    | line _ _ _ parts => exact absurd hmark (parts m hm).ne_emphMark
    | formula =>
        rcases List.mem_cons.mp hm with rfl | hm
        · exact absurd hmark (by simp)
        rcases List.mem_cons.mp hm with rfl | hm
        · exact absurd hmark (by simp)
        · exact absurd hmark (List.mem_singleton.mp hm ▸ by simp)
  · cases hdetail with
    | mark | dollar => exact absurd hm List.not_mem_nil
    | content parts => exact absurd hmark (parts m hm).ne_emphMark
    | head command mem within =>
        exact absurd hmark ((HeadNode.of_mem_nodes mem) m (.child within hm)).ne_emphMark

/-- The leaves of a region spare the marks that may not stand in them, line breaks apart. -/
theorem Placed.spares (h : Placed deep r nodes n) (hnone : n.children = []) :
    SparesMarks r.source n ∨ Gap r n.start n.stop := by
  obtain ⟨r', nodes', root, holds, -, -, hmade | hdetail⟩ := h
  · rw [← holds.source]
    cases hmade with
    | newline mem next_mem lt gap =>
        -- a region inside of a line has a single stretch
        have hnested : ∀ inner, r'.segments = [inner] → inner.start < inner.stop → False := by
          intro inner hsingle hinner
          rw [hsingle] at mem next_mem
          obtain rfl := List.mem_singleton.mp mem
          obtain rfl := List.mem_singleton.mp next_mem
          exact absurd lt (Nat.not_lt.mpr (Nat.le_of_lt hinner))
        cases holds with
        | self => exact .inr gap
        | line _ _ _ nested => exact (hnested _ rfl nested.lt).elim
        | formula _ _ _ _ _ hlt => exact (hnested _ rfl hlt).elim
    | text => exact .inl (.holds .text rfl rfl)
    | brace _ brace =>
        obtain ⟨_, _, _, _, hchar | hchar⟩ := brace
        · exact .inl (.markless (.single hchar rfl))
        · exact .inl (.markless (.single hchar rfl))
    | run _ kinds mem whole =>
        refine .inl (.markless fun p d hp hlt hd => ?_)
        rw [← Option.some.inj ((whole.chars p hp hlt).symm.trans hd)]
        rcases kinds with ⟨_, rfl, _⟩ | ⟨_, rfl⟩ <;> rfl
    | @free _ kind a b kinds => exact .inl (.holds kind rfl (kind.mayHoldMarks_of_isFree kinds))
    | sign kinds markless => exact .inl (.markless markless)
    | marked | command | formula => exact absurd hnone (List.cons_ne_nil _ _)
    | wrapper | line => exact .inl (.of_markup hnone)
  · rw [← holds.source]
    cases hdetail with
    | mark => exact .inl (.holds .emphMark rfl rfl)
    | dollar char => exact .inl (.markless (.single char rfl))
    | content => exact .inl (.of_markup hnone)
    | head command mem within => exact .inl (((HeadNode.of_mem_nodes mem) n within).spares command hnone)

/-- **Marks pair up, or are text.**  In what a region is read as, every mark is the first or the last child of a node
that it marks together with a partner of the same text.  Content touches both of them from inside, and no underscores
that mark stand between two characters of words.  Every other star, underscore and tilde of the region stands in a text,
in an escape or in what no rule looks into: code, addresses, comments, verbatim text and the heads of commands. -/
theorem inlineNodes_marks_paired (src : Source) (levels : Nat) (mode : Mode) {lo hi : Nat} {segments : List Span}
    (hregion : Region lo hi segments) (hhi : hi ≤ src.size) (hspaced : Spaced src segments) :
    (∀ root ∈ (inlineNodes src levels segments mode).value, root.kind ≠ .markup .emphMark) ∧
    (∀ root ∈ (inlineNodes src levels segments mode).value, ∀ n, root.Within n → ∀ m ∈ n.children,
      m.kind = .markup .emphMark → ∃ mark width a b, PairedBy src segments n mark width a b ∧
        (m = leafOf src .emphMark a (a + width) ∨ m = leafOf src .emphMark b (b + width))) ∧
    ∀ segment ∈ segments, ∀ p c, segment.start ≤ p → p < segment.stop → src.chars[p]? = some c → isMark c = true →
      ∃ n ∈ Node.leavesOf (inlineNodes src levels segments mode).value, n.start ≤ p ∧ p < n.stop ∧
        ∃ kind, n.kind = .markup kind ∧ kind.mayHoldMarks = true := by
  let r : Reading := ⟨src, levels, segments, mode⟩
  have hmade : Each (Made True r) (inlineNodes src levels segments mode).value :=
    r.content_made hregion hhi hspaced fun _ => trivial
  have hwithin : ∀ segment ∈ segments, lo ≤ segment.start ∧ segment.stop ≤ hi := fun segment hsegment =>
    ⟨(hregion.lines.mem hsegment).1, (hregion.lines.mem hsegment).2.2⟩
  refine ⟨fun root hroot => (hmade root hroot).ne_emphMark, fun root hroot n hn m hm hmark => ?_,
    fun segment hsegment p c hstart hstop hc hmark => ?_⟩
  · exact (Made.placed hmade hroot hn).paired
      (fun segment hsegment => Nat.le_trans (hwithin segment hsegment).2 hhi) hm hmark
  · obtain ⟨hlo, hhi'⟩ := hwithin segment hsegment
    obtain ⟨n, hn, hfrom, hto⟩ := (inlineNodes_run levels hregion hhi mode).leavesOf.covered
      (Nat.le_trans hlo hstart) (Nat.lt_of_lt_of_le hstop hhi')
    obtain ⟨⟨root, hroot, hbelow⟩, hnone⟩ := Node.within_of_mem_leavesOf _ hn
    refine ⟨n, hn, hfrom, hto, ?_⟩
    rcases (Made.placed hmade hroot hbelow).spares hnone with (⟨kind, hkind, hholds⟩ | hmarkless) | hgap
    · exact ⟨kind, hkind, hholds⟩
    · exact absurd ((hmarkless p c hfrom hto hc).symm.trans hmark) Bool.false_ne_true
    · exact absurd ⟨hstart, hstop⟩ (hgap segment hsegment p hfrom hto)

/-- Stars on two lines mark one node; a tilde and an underscore behind it are text. -/
theorem inlineNodes_marks_paired_lines :
    let src := Source.ofString "*a\nb* ~c_d"
    let segments : List Span := [⟨0, 2⟩, ⟨3, 10⟩]
    let nodes := (inlineNodes src 3 segments .full).value
    (∃ n ∈ nodes, ∃ mark width a b, PairedBy src segments n mark width a b) ∧
      ∀ p ∈ [0, 4, 6, 8], ∃ n ∈ Node.leavesOf nodes, n.start ≤ p ∧ p < n.stop ∧
        ∃ kind, n.kind = .markup kind ∧ kind.mayHoldMarks = true := by
  intro src segments nodes
  have hsize : src.size = 10 := by decide +kernel
  have hlines : Lines 0 10 segments := by simp [Lines, segments]
  have hregion : Region 0 10 segments := Region.of_lines hlines
  have hspaced : Spaced src segments := by
    refine List.isChain_cons_cons.mpr ⟨⟨by decide, fun p hp hlt => ?_⟩, .singleton _⟩
    obtain rfl : p = 2 := Nat.le_antisymm (Nat.le_of_lt_succ hlt) hp
    decide +kernel
  obtain ⟨-, hpaired, hothers⟩ := inlineNodes_marks_paired src 3 .full hregion (Nat.le_of_eq hsize.symm) hspaced
  have hmarked : ∃ n ∈ nodes, ∃ m ∈ n.children, m.kind = .markup .emphMark := by decide +kernel
  refine ⟨?_, ?_⟩
  · obtain ⟨n, hn, m, hm, hmark⟩ := hmarked
    obtain ⟨mark, width, a, b, hpair, -⟩ := hpaired n hn n .root m hm hmark
    exact ⟨n, hn, mark, width, a, b, hpair⟩
  · have hplaces : ∀ p ∈ [0, 4, 6, 8], ∃ segment ∈ segments, segment.start ≤ p ∧ p < segment.stop ∧
        src.chars[p]?.map isMark = some true := by decide +kernel
    intro p hp
    obtain ⟨segment, hmem, hstart, hstop, hplace⟩ := hplaces p hp
    obtain ⟨c, hc, hmark⟩ := Option.map_eq_some_iff.mp hplace
    exact hothers segment hmem p c hstart hstop hc hmark

end ComponentMarkup.Markup
