import ComponentMarkup.Proofs.Markup.BlockHeredity
import ComponentMarkup.Proofs.Markup.BlockReadings
import ComponentMarkup.Proofs.Markup.ComposedContent

/-!
# Blocks are composed

Each rule for blocks puts together a node of its own kind: marks, then what it read inline or as blocks, and gaps
between them.  Gaps are quiet, so it is enough to look at what the rule put there.  Where blocks nest too deep, their
lines are left as text, so the trees of blocks are composed only if that does not happen.

* `composed_filled` — gaps do not matter;
* `readBlock_composed` — the rules make blocks that are composed;
* `readDocument_composed`, `readInlineContent_composed` — so are the trees of documents and of inline content.
-/

namespace ComponentMarkup.Markup

open ComponentMarkup.Text ComponentMarkup.Tree

variable {src : Source} {kind : MarkupKind} {nodes : List Node} {sort : Kind → Bool} {line : Span}
  {later lines : List Span}

/-! ## Gaps -/

theorem fill_composed (cursor stop : Nat) (h : Each Composed nodes) : Each Composed (fill src cursor stop nodes) :=
  fill_has (fun _ _ => composed_leaf _ _ _) (fun _ _ => composed_leaf _ _ _) cursor stop h

theorem gap_quiet (start stop : Nat) : Each (Sorted Kind.isQuiet) (gap src start stop) := by
  have hall : Each (Sorted Kind.isQuiet) (fill src start stop []) :=
    fill_has (fun _ _ => leafOf_sorted rfl) (fun _ _ => leafOf_sorted rfl) start stop .nil
  exact hall

/-- Gaps are quiet. -/
theorem fill_voiced (cursor stop : Nat) (nodes : List Node) :
    voiced ((fill src cursor stop nodes).map Node.kind) = voiced (nodes.map Node.kind) := by
  induction nodes generalizing cursor with
  | nil => exact voiced_quiet (gap_quiet cursor stop).kinds
  | cons n nodes ih =>
      have hcons : ∀ kinds, voiced (n.kind :: kinds) = voiced [n.kind] ++ voiced kinds := voiced_append [n.kind]
      rw [fill, List.map_append, voiced_append, voiced_quiet (gap_quiet cursor n.start).kinds, List.nil_append,
        List.map_cons, List.map_cons, hcons, ih, ← hcons]

/-- A branch with its gaps filled is composed as it is without them, if its kind says nothing about gaps. -/
theorem composed_filled {start stop : Nat} (h : Each Composed nodes)
    (harranges : ∀ kinds, voiced kinds = voiced (nodes.map Node.kind) → kind.Arranges kinds) :
    Composed (filled src kind start stop nodes) :=
  composed_branch (harranges _ (fill_voiced start stop nodes)) (fill_composed start stop h)

/-- Leaves on several lines. -/
theorem leaves_sorted (h : sort (.markup kind) = true) (lines : List Span) (first last : Span → Nat) :
    Each (Sorted sort) (lines.map fun l => leafOf src kind (first l) (last l)) := by
  intro n hn
  obtain ⟨l, _, rfl⟩ := List.mem_map.mp hn
  exact leafOf_sorted h

/-- A leaf over a body, if the body has lines. -/
theorem bodyLeaf_cases (src : Source) (kind : MarkupKind) (body : List Span) :
    bodyLeaf src kind body = [] ∨ ∃ a b, bodyLeaf src kind body = [leafOf src kind a b] := by
  unfold bodyLeaf
  split
  · exact .inr ⟨_, _, rfl⟩
  · exact .inl rfl

/-! ## Rules -/

/-- What is relied on while blocks are read: inline content is composed, and so are the blocks inside a block, unless
nesting gets too deep. -/
structure BlockEnv.Composes (env : BlockEnv) : Prop where
  inline : ∀ segments mode, Each (Sorted Kind.isPhrase) (env.inline segments mode).value
  nested : ∀ lines, (env.nested lines).Calm False → Each (Sorted Kind.isBlock) (env.nested lines).value

section Rules

variable {env : BlockEnv} {result : Limited (Node × List Span)}

theorem commentBlock_composed (h : commentBlock env line later = some result) :
    Sorted Kind.isBlock result.value.1 := by
  unfold commentBlock at h
  dsimp only at h
  split at h
  · obtain rfl := Option.some.inj h
    have hlines : ∀ lines : List Span, Each (Sorted Kind.isQuiet) (lines.map fun l =>
        leafOf env.source .lineComment (contentStart env.source l) l.stop) := fun lines =>
      leaves_sorted rfl lines (contentStart env.source) Span.stop
    exact ⟨composed_filled (hlines _).composed fun _ hkinds => hkinds.trans (voiced_quiet (hlines _).kinds), rfl⟩
  · exact absurd h (by simp)

theorem scriptBlock_composed (h : scriptBlock env line later = some result) : Sorted Kind.isBlock result.value.1 := by
  unfold scriptBlock at h
  dsimp only at h
  split at h
  · exact absurd h (by simp)
  split at h
  · obtain rfl := Option.some.inj h
    generalize splitFence (fun l => isScriptFence (unindented env.source l)) later = fence
    obtain ⟨body, close, rest⟩ := fence
    have hbody : Each (Sorted Kind.isQuiet) (bodyLeaf env.source .scriptBody body) := by
      rcases bodyLeaf_cases env.source .scriptBody body with hnone | ⟨a, b, hsome⟩
      · exact hnone ▸ .nil
      · exact hsome ▸ .single (leafOf_sorted rfl)
    have hclosing : Each (Sorted Kind.isQuiet) (close.toList.map fun l =>
        leafOf env.source .scriptFence (contentStart env.source l) l.stop) :=
      leaves_sorted rfl close.toList (contentStart env.source) Span.stop
    have hnodes : Each (Sorted Kind.isQuiet) (leafOf env.source .scriptFence (contentStart env.source line) line.stop ::
        bodyLeaf env.source .scriptBody body ++ close.toList.map fun l =>
          leafOf env.source .scriptFence (contentStart env.source l) l.stop) :=
      (hbody.append hclosing).cons (leafOf_sorted rfl)
    exact ⟨composed_filled hnodes.composed fun _ hkinds => hkinds.trans (voiced_quiet hnodes.kinds), rfl⟩
  · obtain rfl := Option.some.inj h
    have hbody : ∀ a, Each (Sorted Kind.isQuiet)
        (if a < line.stop then [leafOf env.source .scriptBody a line.stop] else []) :=
      fun _ => .optional (.single (leafOf_sorted rfl))
    have hnodes : ∀ a b, Each (Sorted Kind.isQuiet) (leafOf env.source .scriptMark a b ::
        if b < line.stop then [leafOf env.source .scriptBody b line.stop] else []) :=
      fun _ b => (hbody b).cons (leafOf_sorted rfl)
    exact ⟨composed_filled (hnodes _ _).composed fun _ hkinds => hkinds.trans (voiced_quiet (hnodes _ _).kinds), rfl⟩

theorem attributeBlock_composed (h : attributeBlock env line later = some result) :
    Sorted Kind.isBlock result.value.1 := by
  obtain ⟨width, _, h⟩ := Option.bind_eq_some_iff.mp h
  dsimp only at h
  have hread : ∀ start value, Each (Sorted Kind.isQuiet) value → Sorted Kind.isBlock (enclosing env.source
      .attributeLine start ([leafOf env.source .attributeMark start (start + 1),
        leafOf env.source .attributeKey (start + 2) (start + 2 + width),
        leafOf env.source .colon (start + 2 + width) (start + 2 + width + 1)] ++ value)) := by
    intro start value hvalue
    have hhead : Each (Sorted Kind.isQuiet) [leafOf env.source .attributeMark start (start + 1),
        leafOf env.source .attributeKey (start + 2) (start + 2 + width),
        leafOf env.source .colon (start + 2 + width) (start + 2 + width + 1)] :=
      ((Each.single (leafOf_sorted rfl)).cons (leafOf_sorted rfl)).cons (leafOf_sorted rfl)
    have hnodes := hhead.append hvalue
    exact ⟨composed_filled hnodes.composed fun _ hkinds => hkinds.trans (voiced_quiet hnodes.kinds), rfl⟩
  split at h
  · obtain rfl := Option.some.inj h
    refine hread _ _ ?_
    split
    · exact .single (leafOf_sorted rfl)
    · exact .nil
  · obtain rfl := Option.some.inj h
    exact hread _ _ (.single (leafOf_sorted rfl))

/-- A block of code has at most one text, between fences. -/
theorem codeBlock_composed (h : codeBlock env line later = some result) : Sorted Kind.isBlock result.value.1 := by
  obtain ⟨⟨mark, width⟩, _, h⟩ := Option.bind_eq_some_iff.mp h
  obtain rfl := Option.some.inj h
  have hinfo : ∀ a b, Each (Sorted Kind.isQuiet) (if a < b then [leafOf env.source .codeInfo a b] else []) :=
    fun _ _ => .optional (.single (leafOf_sorted rfl))
  have hclosing : ∀ (lines : List Span) (last : Span → Nat), Each (Sorted Kind.isQuiet)
      (lines.map fun l => leafOf env.source .codeFence (contentStart env.source l) (last l)) :=
    fun lines last => leaves_sorted rfl lines (contentStart env.source) last
  have hcode : ∀ body, Each Composed (bodyLeaf env.source .codeText body) ∧
      (voiced ((bodyLeaf env.source .codeText body).map Node.kind) = [] ∨
        voiced ((bodyLeaf env.source .codeText body).map Node.kind) = [.markup .codeText]) := by
    intro body
    rcases bodyLeaf_cases env.source .codeText body with hnone | ⟨a, b, hsome⟩
    · rw [hnone]
      exact ⟨.nil, .inl rfl⟩
    · rw [hsome]
      exact ⟨.single (composed_leaf _ _ _), .inr rfl⟩
  refine ⟨composed_filled ?_ fun kinds hkinds => ?_, rfl⟩
  · refine ((Each.cons (composed_leaf _ _ _) (hinfo _ _).composed).append (hcode _).1).append (hclosing _ _).composed
  · show voiced kinds = [] ∨ voiced kinds = [_]
    rw [hkinds, List.map_append, List.map_append, voiced_append, voiced_append, List.map_cons, kind_leafOf,
      voiced_cons_quiet rfl, voiced_quiet (hinfo _ _).kinds, voiced_quiet (hclosing _ _).kinds, List.nil_append,
      List.append_nil]
    exact (hcode _).2

variable (he : env.Composes)

include he

/-- A formula has at most one content, between fences. -/
theorem mathBlock_composed (h : mathBlock env line later = some result) : Sorted Kind.isBlock result.value.1 := by
  unfold mathBlock at h
  dsimp only at h
  split at h
  · exact absurd h (by simp)
  obtain rfl := Option.some.inj h
  generalize splitFence (fun l => isMathFence (unindented env.source l)) later = fence
  obtain ⟨body, close, rest⟩ := fence
  have hfence : ∀ l, Sorted Kind.isQuiet (leafOf env.source .mathDelim (contentStart env.source l)
      (contentStart env.source l + 2)) := fun _ => leafOf_sorted rfl
  have hclosing : Each (Sorted Kind.isQuiet) (close.toList.map fun l => leafOf env.source .mathDelim
      (contentStart env.source l) (contentStart env.source l + 2)) := leaves_sorted rfl _ _ _
  have hread : ∀ ns, Each (Sorted Kind.isPhrase) ns → Composed (enclosing env.source .mathBlock
      (contentStart env.source line) (leafOf env.source .mathDelim (contentStart env.source line)
        (contentStart env.source line + 2) :: (if ns.isEmpty then [] else [Node.markup .mathContent ns]) ++
          close.toList.map fun l => leafOf env.source .mathDelim (contentStart env.source l)
            (contentStart env.source l + 2))) := by
    intro ns hns
    have hcontent : Composed (.markup .mathContent ns) := composed_branch hns.voiced hns.composed
    refine composed_filled ?_ fun kinds hkinds => ?_
    · refine (Each.cons (hfence line).composed ?_).append hclosing.composed
      split
      · exact .nil
      · exact .single hcontent
    · show voiced kinds = [] ∨ voiced kinds = [_]
      rw [hkinds, List.map_append, voiced_append, List.map_cons, kind_leafOf, voiced_cons_quiet rfl,
        voiced_quiet hclosing.kinds, List.append_nil]
      split
      · exact .inl rfl
      · exact .inr rfl
  dsimp only
  split
  · exact ⟨hread [] .nil, rfl⟩
  · exact ⟨hread _ (he.inline _ _), rfl⟩

/-- The marker of a heading is its first child. -/
theorem headingBlock_composed (h : headingBlock env line later = some result) :
    Sorted Kind.isBlock result.value.1 := by
  obtain ⟨level, _, h⟩ := Option.bind_eq_some_iff.mp h
  obtain rfl := Option.some.inj h
  have hread : ∀ ns, Each (Sorted Kind.isPhrase) ns → Composed (filled env.source .heading
      (contentStart env.source line) line.stop (leafOf env.source .headingMarker (contentStart env.source line)
        (contentStart env.source line + level) :: ns)) := by
    intro ns hns
    have hfirst : gap env.source (contentStart env.source line) (leafOf env.source .headingMarker
        (contentStart env.source line) (contentStart env.source line + level)).start = [] :=
      if_neg (Nat.lt_irrefl _)
    refine composed_branch ⟨?_, ?_⟩ (fill_composed _ _ (hns.composed.cons (composed_leaf _ _ _)))
    · rw [fill, hfirst]
      rfl
    · rw [fill_voiced, List.map_cons, kind_leafOf, voiced_cons_quiet rfl]
      exact hns.voiced
  dsimp only
  split
  · exact ⟨hread _ (he.inline _ _), rfl⟩
  · exact ⟨hread [] .nil, rfl⟩

theorem componentLine_composed (start stop : Nat) : Each Composed (componentLine env start stop).value ∧
    ∃ content : Bool, voiced ((componentLine env start stop).value.map Node.kind) =
      if content then [.markup .lineContent] else [] := by
  unfold componentLine
  dsimp only
  split
  · exact ⟨.single (composed_branch (he.inline _ _).voiced (he.inline _ _).composed), true, rfl⟩
  · exact ⟨.nil, false, rfl⟩

theorem componentBody_composed (hcalm : (componentBody env line later).Calm False) :
    Each Composed (componentBody env line later).value.1 ∧ ∃ body : Bool,
      voiced ((componentBody env line later).value.1.map Node.kind) = if body then [.markup .blockBody] else [] := by
  unfold componentBody at hcalm ⊢
  dsimp only at hcalm ⊢
  generalize takeIndented env.source (indentOf env.source line + bodyIndent) later = split at hcalm ⊢
  obtain ⟨taken, rest⟩ := split
  cases hlast : taken.getLast? with
  | none => exact ⟨.nil, false, rfl⟩
  | some last =>
      rw [hlast] at hcalm
      have hnodes := he.nested _ hcalm.of_bind.1
      dsimp only
      rw [value_bind]
      split
      · exact ⟨.nil, false, rfl⟩
      · refine ⟨.single (composed_filled hnodes.composed fun kinds hkinds => ?_), true, rfl⟩
        show ∀ k ∈ voiced kinds, _
        rw [hkinds]
        exact hnodes.voiced

/-- A component of several lines has one kind of body. -/
theorem componentBlock_composed (h : componentBlock env line later = some result) (hcalm : result.Calm False) :
    Sorted Kind.isBlock result.value.1 := by
  unfold componentBlock at h
  dsimp only at h
  split at h
  · exact absurd h (by simp)
  obtain ⟨⟨head, form⟩, _, h⟩ := Option.bind_eq_some_iff.mp h
  have hfinish : ∀ nodes, Each Composed nodes → IsBody (voiced (nodes.map Node.kind)) → Sorted Kind.isBlock
      (enclosing env.source .blockComponent (contentStart env.source line) (head.nodes env.source ++ nodes)) := by
    intro nodes hnodes hbody
    refine ⟨composed_filled ((head_quiet head).composed.append hnodes) fun kinds hkinds => ?_, rfl⟩
    show IsBody (voiced kinds)
    rw [hkinds, voiced_head]
    exact hbody
  dsimp only at h
  split at h
  · obtain ⟨rest, _, h⟩ := Option.bind_eq_some_iff.mp h
    obtain rfl := Option.some.inj h
    exact hfinish _ (.single (verbatimNode_composed _ _ _)) .verbatim
  · rename_i close _
    obtain ⟨rest, _, h⟩ := Option.bind_eq_some_iff.mp h
    obtain rfl := Option.some.inj h
    refine hfinish _ (.append (.cons (composed_leaf _ _ _) ?_) (.single (composed_leaf _ _ _))) ?_
    · exact .optional (.single (composed_leaf _ _ _))
    · by_cases hhole : head.stop + 1 < close
      · rw [if_pos hhole]
        exact .hole
      · rw [if_neg hhole]
        exact .composite false false
  · obtain rfl := Option.some.inj h
    obtain ⟨_, hrest⟩ := hcalm.of_bind
    obtain ⟨hline, content, hcontent⟩ := componentLine_composed he (_ + 1) line.stop
    obtain ⟨hbody, body, hvoiced⟩ := componentBody_composed he hrest.of_bind.1
    rw [value_bind, value_bind]
    refine hfinish _ ((hline.cons (composed_leaf _ _ _)).append hbody) ?_
    rw [List.map_append, voiced_append, List.map_cons, kind_leafOf, voiced_cons_quiet rfl, hcontent, hvoiced]
    exact .composite content body
  · obtain rfl := Option.some.inj h
    exact hfinish [] .nil (.composite false false)

theorem quoteBlock_composed (h : quoteBlock env line later = some result) (hcalm : result.Calm False) :
    Sorted Kind.isBlock result.value.1 := by
  unfold quoteBlock at h
  dsimp only at h
  split at h
  · exact absurd h (by simp)
  obtain rfl := Option.some.inj h
  have hnodes := he.nested _ hcalm.of_bind.1
  refine ⟨composed_filled hnodes.composed fun kinds hkinds => ?_, rfl⟩
  show ∀ k ∈ voiced kinds, _
  rw [hkinds]
  exact hnodes.voiced

theorem listItem_composed {marker : ListMarker} (hcalm : (listItem env line marker later).Calm False) :
    Sorted (· == .markup .listItem) (listItem env line marker later).value.1 := by
  have hblocks := he.nested _ hcalm.of_bind.1
  unfold listItem
  dsimp only
  rw [value_bind]
  have htask : ∀ (task : Bool) (a : Nat), Each (Sorted Kind.isQuiet)
      (if task then [leafOf env.source .taskMarker a (a + 3)] else []) :=
    fun _ _ => .optional (.single (leafOf_sorted rfl))
  refine ⟨composed_filled (((htask _ _).composed.cons (composed_leaf _ _ _)).append hblocks.composed)
    fun kinds hkinds => ?_, rfl⟩
  show ∀ k ∈ voiced kinds, _
  rw [hkinds, List.map_append, voiced_append, List.map_cons, kind_leafOf, voiced_cons_quiet rfl,
    voiced_quiet (htask _ _).kinds, List.nil_append]
  exact hblocks.voiced

theorem listItems_composed (indent : Nat) (first : ListMarker) (fuel : Nat) {line : Span} {later : List Span}
    {marker : ListMarker} (hcalm : (listItems env indent first fuel line marker later).Calm False) :
    Each (Sorted (· == .markup .listItem)) (listItems env indent first fuel line marker later).value.1 := by
  induction fuel generalizing line later marker with
  | zero => exact .nil
  | succ fuel ih =>
      unfold listItems at hcalm ⊢
      obtain ⟨hitemCalm, hothers⟩ := hcalm.of_bind
      have hitem := listItem_composed he hitemCalm
      rw [value_bind]
      generalize (listItem env line marker later).value = result at hitem hothers ⊢
      obtain ⟨item, rest⟩ := result
      dsimp only at hitem hothers ⊢
      cases hdrop : rest.dropWhile (isBlankLine env.source) with
      | nil => exact .single hitem
      | cons next lines =>
          rw [hdrop] at hothers
          dsimp only at hothers ⊢
          cases hother : ListMarker.read? (unindented env.source next) with
          | none => exact .single hitem
          | some marker' =>
              rw [hother] at hothers
              dsimp only at hothers ⊢
              split
              · rename_i hcontinues
                rw [if_pos hcontinues] at hothers
                exact (ih hothers.of_bind.1).cons hitem
              · exact .single hitem

theorem listBlock_composed (h : listBlock env line later = some result) (hcalm : result.Calm False) :
    Sorted Kind.isBlock result.value.1 := by
  obtain ⟨marker, _, h⟩ := Option.bind_eq_some_iff.mp h
  obtain rfl := Option.some.inj h
  have hitems := listItems_composed he _ _ _ hcalm.of_bind.1
  rw [value_bind]
  generalize (listItems env (indentOf env.source line) marker (later.length + 1) line marker later).value = result
    at hitems
  have hlist : ∀ kinds, voiced kinds = voiced (result.1.map Node.kind) → ∀ k ∈ voiced kinds, k = .markup .listItem := by
    intro kinds hkinds k hk
    rw [hkinds] at hk
    exact beq_iff_eq.mp (hitems.voiced k hk)
  show Sorted Kind.isBlock
    (enclosing env.source marker.listKind ((result.1.head?.map Node.start).getD 0) result.1)
  unfold ListMarker.listKind
  split
  · exact ⟨composed_filled hitems.composed hlist, rfl⟩
  · exact ⟨composed_filled hitems.composed hlist, rfl⟩

theorem tableCell_composed (cell : Span) : Sorted (· == .markup .tableCell) (tableCell env cell).value := by
  unfold tableCell
  dsimp only
  split
  · exact ⟨composed_branch (he.inline _ _).voiced (he.inline _ _).composed, rfl⟩
  · refine ⟨.intro (fun k hk => absurd hk List.not_mem_nil) fun _ hc => absurd hc List.not_mem_nil, rfl⟩

theorem tableCells_composed (cells : List Span) : Each (Sorted (· == .markup .tableCell)) (tableCells env cells).value := by
  induction cells with
  | nil => exact .nil
  | cons cell cells ih => exact ih.cons (tableCell_composed he cell)

/-- A row has cells, and pipes around them. -/
theorem tableRow_composed (hkind : kind = .tableHeader ∨ kind = .tableRow) :
    Sorted (· == .markup kind) (tableRow env kind line).value := by
  unfold tableRow
  dsimp only
  rw [value_bind]
  have hcells := tableCells_composed he (cellSpans env.source line)
  generalize (tableCells env (cellSpans env.source line)).value = cells at hcells
  have hpipes : Each (Sorted Kind.isQuiet) ((pipePlaces env.source line.start line.stop).map fun p =>
      leafOf env.source .tablePipe p (p + 1)) := by
    intro n hn
    obtain ⟨p, _, rfl⟩ := List.mem_map.mp hn
    exact leafOf_sorted rfl
  refine ⟨composed_filled (fun n hn => ?_) fun kinds hkinds => ?_, beq_self_eq_true _⟩
  · rcases List.mem_append.mp (List.mem_mergeSort.mp hn) with hn | hn
    · exact (hpipes n hn).composed
    · exact (hcells n hn).composed
  · have hall : ∀ k ∈ voiced kinds, k = .markup .tableCell := by
      intro k hk
      rw [hkinds] at hk
      obtain ⟨hmem, hloud⟩ := List.mem_filter.mp hk
      obtain ⟨n, hn, rfl⟩ := List.mem_map.mp hmem
      rcases List.mem_append.mp (List.mem_mergeSort.mp hn) with hn | hn
      · rw [(hpipes n hn).sort] at hloud
        exact absurd hloud Bool.false_ne_true
      · exact beq_iff_eq.mp (hcells n hn).sort
    rcases hkind with rfl | rfl
    · exact hall
    · exact hall

theorem tableRows_composed (lines : List Span) : Each (Sorted (· == .markup .tableRow)) (tableRows env lines).value := by
  induction lines with
  | nil => exact .nil
  | cons line lines ih => exact ih.cons (tableRow_composed he (.inr rfl))

/-- The header of a table is the first of its rows. -/
theorem tableBlock_composed (h : tableBlock env line later = some result) : Sorted Kind.isBlock result.value.1 := by
  unfold tableBlock at h
  dsimp only at h
  cases later with
  | nil => exact absurd h (by simp)
  | cons delimiter rest =>
      dsimp only at h
      split at h
      · exact absurd h (by simp)
      obtain ⟨count, _, h⟩ := Option.bind_eq_some_iff.mp h
      split at h
      · exact absurd h (by simp)
      obtain rfl := Option.some.inj h
      have hheader : Sorted (· == .markup .tableHeader) (tableRow env .tableHeader line).value :=
        tableRow_composed he (.inl rfl)
      rw [value_bind, value_bind]
      have hrows := tableRows_composed he (rest.takeWhile fun l => !isBlankLine env.source l &&
        (unindented env.source l).contains '|' && !startsBlock env.source l)
      refine ⟨composed_filled ((hrows.composed.cons (composed_leaf _ _ _)).cons hheader.composed)
        fun kinds hkinds => ?_, rfl⟩
      refine ⟨_, ?_, fun k hk => beq_iff_eq.mp (hrows.voiced k hk)⟩
      rw [hkinds, List.map_cons, List.map_cons, beq_iff_eq.mp hheader.sort, kind_leafOf, voiced_cons rfl,
        voiced_cons_quiet rfl]

theorem paragraph_composed : Sorted Kind.isBlock (paragraph env line later).value.1 := by
  unfold paragraph
  dsimp only
  rw [value_bind]
  exact ⟨composed_branch (he.inline _ _).voiced (he.inline _ _).composed, rfl⟩

/-- **Every rule makes composed blocks**, unless nesting gets too deep. -/
theorem readBlock_composed (hcalm : (readBlock env line later).Calm False) :
    Sorted Kind.isBlock (readBlock env line later).value.1 := by
  unfold readBlock at hcalm ⊢
  cases hfound : blockRules.findSome? fun rule => rule env line later with
  | none => exact paragraph_composed he
  | some result =>
      rw [hfound] at hcalm
      obtain ⟨rule, hrule, h⟩ := List.exists_of_findSome?_eq_some hfound
      have hcalm : result.Calm False := hcalm
      show Sorted Kind.isBlock result.value.1
      simp only [blockRules, List.mem_cons, List.not_mem_nil, or_false] at hrule
      rcases hrule with rfl | rfl | rfl | rfl | rfl | rfl | rfl | rfl | rfl | rfl
      · exact commentBlock_composed h
      · exact scriptBlock_composed h
      · exact attributeBlock_composed h
      · exact componentBlock_composed he h hcalm
      · exact mathBlock_composed he h
      · exact codeBlock_composed h
      · exact headingBlock_composed he h
      · exact quoteBlock_composed he h hcalm
      · exact listBlock_composed he h hcalm
      · exact tableBlock_composed he h

theorem readBlocks_composed (fuel : Nat) (hcalm : (readBlocks env fuel lines).Calm False) :
    Each (Sorted Kind.isBlock) (readBlocks env fuel lines).value := by
  induction fuel generalizing lines with
  | zero => exact .nil
  | succ fuel ih =>
      cases lines with
      | nil => exact .nil
      | cons line later =>
          unfold readBlocks at hcalm ⊢
          split at hcalm
          · rename_i hblank
            rw [if_pos hblank]
            exact ih hcalm
          · rename_i hsome
            rw [if_neg hsome]
            obtain ⟨hblock, hothers⟩ := hcalm.of_bind
            exact (ih hothers.of_bind.1).cons (readBlock_composed he hblock)

end Rules

/-! ## Documents -/

/-- **The blocks of a list of lines are composed**, unless they nest too deep. -/
theorem blockNodes_composed (levels : Nat) (hcalm : (blockNodes src levels lines).Calm False) :
    Each (Sorted Kind.isBlock) (blockNodes src levels lines).value := by
  induction levels generalizing lines with
  | zero => exact (hcalm rfl).elim
  | succ levels ih => exact readBlocks_composed ⟨inlineNodes_composed src (levels - 1), fun _ => ih⟩ _ hcalm

theorem readDocument_composed {s : Span} (h : (readDocument src s).overflow = none) :
    Composed (readDocument src s).value := by
  have hcalm : (readDocument src s).Calm False := fun hdeep => by
    rw [h] at hdeep
    exact absurd hdeep Bool.false_ne_true
  have hblocks := blockNodes_composed (maxDepth + 1) hcalm.of_bind.1
  refine composed_branchAt (fun k hk => ?_) (fill_composed _ _ hblocks.composed)
  rw [fill_voiced] at hk
  exact hblocks.voiced k hk

theorem readInlineContent_composed (src : Source) (s : Span) : Composed (readInlineContent src s).value := by
  have hnodes := inlineNodes_composed src maxDepth (lineSpans src s) .full
  exact composed_branchAt hnodes.voiced hnodes.composed

end ComponentMarkup.Markup
