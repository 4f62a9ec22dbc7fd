import ComponentMarkup.Proofs.Markup.BlockParts

/-!
# Blocks are formed

Each rule for blocks takes some of the lines it is given and leaves the others.  Its node is formed, and what it takes
from the lines is in its node, up to idle places.  So nothing that was written is left between the nodes of blocks, and
the gaps between them are white space and markers of quotations.

* `BlockForm` — what a rule has to return;
* `BlockForm.filled` — it is enough that the nodes of a block keep what is taken from the lines;
* `readBlock_form` — every rule does;
* `blockNodes_form` — the blocks of a list of lines are formed and keep what the lines hold, however deep they are.
-/

namespace ComponentMarkup.Markup

open ComponentMarkup.Text ComponentMarkup.Tree

variable {src : Source} {quoted : Prop} {line : Span} {later : List Span} {lo hi : Nat}

/-- What a rule returns for a line and the lines after it: a node that is formed, and some of the lines at the end.  What
the lines hold is in the node or in the lines that are left. -/
structure BlockForm (src : Source) (quoted : Prop) (line : Span) (later : List Span) (result : Node × List Span) : Prop where
  formed : Formed src quoted result.1
  rest : result.2 <:+ later
  keeps : Keeps src quoted (line :: later) (result.1.span :: result.2)

/-- Lines that are left are kept by themselves. -/
theorem Keeps.before {taken rest inner : List Span} (h : Keeps src quoted (line :: taken) inner) :
    Keeps src quoted (line :: (taken ++ rest)) (inner ++ rest) :=
  (show Keeps src quoted ((line :: taken) ++ rest) (inner ++ rest) from
    (h.subset (List.subset_append_left inner rest)).append
      ((Keeps.refl rest).subset (List.subset_append_right inner rest)))

namespace BlockForm

/-- A node that keeps the lines that are taken. -/
theorem of {node : Node} {taken rest : List Span} (hsplit : later = taken ++ rest) (hformed : Formed src quoted node)
    (hkeeps : Keeps src quoted (line :: taken) [node.span]) : BlockForm src quoted line later (node, rest) := by
  subst hsplit
  exact ⟨hformed, List.suffix_append taken rest, hkeeps.before⟩

/-- The nodes of a branch keep all that is in the branch, if they keep the lines that are taken. -/
theorem inside {quoted' : Prop} {kind : MarkupKind} {start stop : Nat} {nodes : List Node} {rest : List Span}
    (hread : BlockRead src line (lastStop line.stop later) (Markup.filled src kind start stop nodes, rest))
    (hpage : Page src quoted (line :: later)) (himp : quoted → quoted')
    (hkeeps : Keeps src quoted' (line :: later) (nodes.map Node.span ++ rest)) :
    Keeps src quoted' [(Markup.filled src kind start stop nodes).span] (nodes.map Node.span) := by
  intro p hp
  have hstretch : Keeps src quoted' [(Markup.filled src kind start stop nodes).span] (line :: later) := by
    have hpart : Keeps src quoted' [(Markup.filled src kind start stop nodes).span]
        [⟨line.start, lastStop line.stop later⟩] :=
      .part (List.mem_singleton_self _) hread.start_le hread.rest.le
    exact hpart.trans ((page_keeps hpage).mono himp)
  rcases (hstretch.trans hkeeps) p hp with hidle | hin
  · exact .inl hidle
  · refine .inr ((liesIn_append.mp hin).resolve_right ?_)
    -- the lines that are left are behind the branch
    rintro ⟨l, hl, hfrom, _⟩
    have hbehind := (hread.rest.mem hl).1
    have hwithin := (liesIn_single.mp hp).2
    exact absurd (Nat.lt_of_lt_of_le hwithin (Nat.le_trans hbehind hfrom)) (Nat.lt_irrefl p)

/-- **A block is formed if its nodes are and keep what is taken from the lines.** -/
theorem filled {kind : MarkupKind} {start stop : Nat} {nodes : List Node} {rest : List Span}
    (hread : BlockRead src line (lastStop line.stop later) (Markup.filled src kind start stop nodes, rest))
    (hpage : Page src quoted (line :: later)) (hkind : kind.isOrdinary = true) (hrest : rest <:+ later)
    (hkeeps : Keeps src quoted (line :: later) (nodes.map Node.span ++ rest))
    (hnodes : Each (Formed src quoted) nodes) :
    BlockForm src quoted line later (Markup.filled src kind start stop nodes, rest) := by
  have hfits : (Markup.filled src kind start stop nodes).Fits src := hread.fits
  refine ⟨filled_formed hkind hfits (inside hread hpage id hkeeps) hnodes, hrest, hkeeps.trans (.append ?_ ?_)⟩
  · exact ((Keeps.refl _).filled hfits).subset (List.cons_subset_cons _ (List.nil_subset _))
  · exact (Keeps.refl rest).subset (List.subset_cons_self _ _)

/-- A block that ends with the last of its nodes. -/
theorem enclosing {kind : MarkupKind} {start : Nat} {nodes : List Node} {taken rest : List Span}
    (hsplit : later = taken ++ rest)
    (hread : BlockRead src line (lastStop line.stop later) (Markup.enclosing src kind start nodes, rest))
    (hpage : Page src quoted (line :: later)) (hkind : kind.isOrdinary = true)
    (hkeeps : Keeps src quoted (line :: taken) (nodes.map Node.span)) (hnodes : Each (Formed src quoted) nodes) :
    BlockForm src quoted line later (Markup.enclosing src kind start nodes, rest) := by
  subst hsplit
  exact filled hread hpage hkind (List.suffix_append taken rest) hkeeps.before hnodes

end BlockForm

/-! ## Rules -/

section Rules

variable {env : BlockEnv} {result : Limited (Node × List Span)}
  (hlines : Lines lo (lastStop line.stop later) (line :: later)) (hhi : lastStop line.stop later ≤ env.source.size)
  (hpage : Page env.source quoted (line :: later))

include hlines hhi hpage

theorem commentBlock_form (h : commentBlock env line later = some result) :
    BlockForm env.source quoted line later result.value := by
  have hread := commentBlock_read hlines hhi h
  unfold commentBlock at h
  dsimp only at h
  split at h
  · rename_i hcomment
    obtain rfl := Option.some.inj h
    simp only [List.takeWhile_cons, List.dropWhile_cons, hcomment, if_true] at hread ⊢
    refine .enclosing List.takeWhile_append_dropWhile.symm hread hpage rfl ?_ (leaves_formed rfl _ _ _)
    exact keeps_leaves .lineComment fun l _ => keeps_content env.source quoted l
  · exact absurd h (by simp)

theorem scriptBlock_form (h : scriptBlock env line later = some result) :
    BlockForm env.source quoted line later result.value := by
  have hread := scriptBlock_read hlines hhi h
  have hline := keeps_content env.source quoted line
  unfold scriptBlock at h
  dsimp only at h
  split at h
  · exact absurd h (by simp)
  generalize contentStart env.source line = start at hline h
  split at h
  · rcases hfence : splitFence (fun l => isScriptFence (unindented env.source l)) later with ⟨body, close, rest⟩
    rw [hfence] at h
    obtain rfl := Option.some.inj h
    obtain ⟨last, hbody, -⟩ := splitFence_lines hlines.2.2 hfence
    refine .enclosing (splitFence_append hfence) hread hpage rfl ?_
      (((bodyLeaf_formed rfl body).cons (.leafOf rfl)).append (leaves_formed rfl _ _ _))
    have hfirst : Keeps env.source quoted [line]
        ([leafOf env.source .scriptFence start line.stop].map Node.span) := hline
    have hinner := keeps_bodyLeaf env.source quoted .scriptBody hbody
    have hclosing := keeps_leaves .scriptFence fun l (_ : l ∈ close.toList) => keeps_content env.source quoted l
    refine (hfirst.among ?_).cons ((hinner.among ?_).append (hclosing.among ?_))
    · exact List.cons_subset_cons _ (List.nil_subset _)
    · exact List.subset_append_of_subset_left _ (List.subset_cons_self _ _)
    · exact List.subset_append_right _ _
  · obtain rfl := Option.some.inj h
    refine .enclosing (List.nil_append later).symm hread hpage rfl ?_
      ((Each.optional (.single (.leafOf rfl))).cons (.leafOf rfl))
    have hbody := keeps_optionalLeaf env.source quoted .scriptBody (start + 1) line.stop
    refine hline.trans (.join (.node List.mem_cons_self (Nat.le_refl _) (Nat.le_refl _)) (hbody.among ?_))
    exact List.subset_cons_self _ _

theorem attributeBlock_form (h : attributeBlock env line later = some result) :
    BlockForm env.source quoted line later result.value := by
  have hread := attributeBlock_read hlines hhi h
  have hline := keeps_content env.source quoted line
  obtain ⟨width, hkey, h⟩ := Option.bind_eq_some_iff.mp h
  obtain ⟨rest, hrest⟩ := attributeKey?_blank hkey
  rw [unindented_eq] at hrest
  dsimp only at h
  generalize contentStart env.source line = start at hline hrest h
  have hhead : ∀ value : List Node, Keeps env.source quoted [⟨start + 2 + width + 1, line.stop⟩] (value.map Node.span) →
      Keeps env.source quoted [line] ((attributeHead env.source start width ++ value).map Node.span) := fun value hvalue =>
    hline.trans (.join ((keeps_attributeHead width hrest).among (List.subset_append_left _ _))
      (hvalue.among (List.subset_append_right _ _)))
  split at h
  · rename_i hwhite
    rcases htaken : takeIndented env.source (indentOf env.source line + bodyIndent) later with ⟨taken, rest⟩
    rw [htaken] at h
    obtain rfl := Option.some.inj h
    obtain ⟨hsplit, hdeep⟩ := takeDeeper_spec htaken
    have hbody : Lines line.stop (lastStop line.stop taken) taken := (hsplit ▸ hlines.2.2).split.1
    have hvalue := keeps_attributeValue quoted hbody fun l hl hsome => of_decide_eq_true (hdeep l hl hsome)
    refine .enclosing hsplit hread hpage rfl ?_ ((attributeHead_formed _ _ _).append (attributeValue_formed _ _))
    refine (hhead _ (.white fun c hc => ?_)).cons (hvalue.among (List.subset_append_right _ _))
    exact List.all_eq_true.mp hwhite c hc
  · obtain rfl := Option.some.inj h
    refine .enclosing (List.nil_append later).symm hread hpage rfl (hhead _ ?_)
      ((attributeHead_formed _ _ _).append (.single (.leafOf rfl)))
    have hrun : ∀ nodes, Keeps env.source quoted [⟨start + 2 + width + 1, start + 2 + width + 1 +
        runLength isWhitespace (env.source.slice (start + 2 + width + 1) line.stop)⟩] nodes := fun nodes =>
      .idle fun _ hfrom hto => isIdle_of_white fun _ hc => Source.of_runLength hfrom hto hc
    exact (hrun _).join (.leaf .attributeValue List.mem_cons_self)

theorem codeBlock_form (h : codeBlock env line later = some result) :
    BlockForm env.source quoted line later result.value := by
  have hread := codeBlock_read hlines hhi h
  have hline := keeps_content env.source quoted line
  obtain ⟨⟨mark, width⟩, _, h⟩ := Option.bind_eq_some_iff.mp h
  dsimp only at h
  rcases hsplit : splitFence (fun l => closesFence mark width (unindented env.source l)) later with
    ⟨body, close, rest⟩
  rw [hsplit] at h
  obtain rfl := Option.some.inj h
  obtain ⟨last, hbody, -⟩ := splitFence_lines hlines.2.2 hsplit
  refine .enclosing (splitFence_append hsplit) hread hpage rfl ?_
    ((((Each.optional (.single (.leafOf rfl))).cons (.leafOf rfl)).append (bodyLeaf_formed rfl body)).append
      (leaves_formed rfl _ _ _))
  have hinfo : Keeps env.source quoted [⟨contentStart env.source line + width, line.stop⟩]
      ((if (trimmed env.source (contentStart env.source line + width) line.stop).start <
          (trimmed env.source (contentStart env.source line + width) line.stop).stop then
        [leafOf env.source .codeInfo
          (trimmed env.source (contentStart env.source line + width) line.stop).start
          (trimmed env.source (contentStart env.source line + width) line.stop).stop] else []).map Node.span) := by
    refine keeps_trimmed fun hlt => ?_
    rw [if_pos hlt]
    exact List.mem_singleton_self _
  have hinner := keeps_bodyLeaf env.source quoted .codeText hbody
  have hclosing := keeps_leaves .codeFence fun l (_ : l ∈ close.toList) => keeps_row env.source quoted l
  refine (hline.trans (.join (.leaf .codeFence ?_) (hinfo.among ?_))).cons ((hinner.among ?_).append
    (hclosing.among ?_))
  · exact List.mem_append_left _ (List.mem_append_left _ List.mem_cons_self)
  · exact List.subset_append_of_subset_left _ (List.subset_append_of_subset_left _ (List.subset_cons_self _ _))
  · exact List.subset_append_of_subset_left _ (List.subset_append_right _ _)
  · exact List.subset_append_right _ _

variable (he : env.Forms) (hs : env.Sound)

include he hs

/-- Components keep their lines, wherever their bodies end. -/
theorem componentBlock_form (h : componentBlock env line later = some result) :
    BlockForm env.source quoted line later result.value := by
  have hread := componentBlock_read hs hlines hhi h
  have hline := keeps_content env.source quoted line
  obtain ⟨_, _, hstop⟩ := content_bounds hlines hhi List.mem_cons_self
  unfold componentBlock at h
  dsimp only at h
  split at h
  · exact absurd h (by simp)
  obtain ⟨⟨head, form⟩, hheader, h⟩ := Option.bind_eq_some_iff.mp h
  obtain ⟨_, hlimit, hhead, hwithin⟩ := componentHeader?_spec hheader hstop
  have hends := componentHeader?_ends hheader
  have hnodes : Each (Formed env.source quoted) (head.nodes env.source) := .head head
  have hkeeps : Keeps env.source quoted [⟨contentStart env.source line, head.stop⟩]
      ((head.nodes env.source).map Node.span) := .run hhead
  dsimp only at h
  split at h
  · rename_i close
    obtain ⟨rest, hafter, h⟩ := Option.bind_eq_some_iff.mp h
    obtain rfl := Option.some.inj h
    obtain ⟨taken, hsplit, hupTo⟩ := keeps_upTo hafter hlines hhi hpage hends
    refine .enclosing hsplit hread hpage rfl (hupTo.trans ?_) (hnodes.append (.single (.verbatim _ _)))
    exact .run (hhead.append (verbatimNode_run hwithin.1 hwithin.2))
  · rename_i close
    obtain ⟨rest, hafter, h⟩ := Option.bind_eq_some_iff.mp h
    obtain rfl := Option.some.inj h
    obtain ⟨taken, hsplit, hupTo⟩ := keeps_upTo hafter hlines hhi hpage hends
    have hhole := keeps_optionalLeaf env.source quoted .markupHole (head.stop + 1) close
    refine .enclosing hsplit hread hpage rfl (hupTo.trans ?_) (hnodes.append
      (((Each.optional (.single (.leafOf rfl))).cons (.leafOf rfl)).append (.single (.leafOf rfl))))
    refine (hkeeps.among ?_).join (.join (.leaf .leftBrace ?_) ((hhole.among ?_).join (.leaf .rightBrace ?_)))
    · exact List.subset_append_left _ _
    · exact List.mem_append_right _ List.mem_cons_self
    · exact List.subset_append_of_subset_right _
        (List.subset_append_of_subset_left _ (List.subset_cons_self _ _))
    · exact List.mem_append_right _ (List.mem_append_right _ List.mem_cons_self)
  · rename_i colon
    obtain rfl := Option.some.inj h
    obtain ⟨rfl, hcolon⟩ := hwithin
    obtain ⟨hcontent, hcontentKeeps⟩ := componentLine_form quoted he hs hcolon hstop
    obtain ⟨taken, hsplit, hbody, hbodyKeeps⟩ := componentBody_form quoted he hs hlines hhi hpage
    refine .enclosing hsplit hread hpage rfl (.cons (hline.trans ?_) (hbodyKeeps.among ?_))
      (hnodes.append ((hcontent.cons (.leafOf rfl)).append hbody))
    · refine (hkeeps.among ?_).join (.join (.leaf .colon ?_) (hcontentKeeps.among ?_))
      · exact List.subset_append_left _ _
      · exact List.mem_append_right _ List.mem_cons_self
      · exact List.subset_append_of_subset_right _
          (List.subset_append_of_subset_left _ (List.subset_cons_self _ _))
    · exact List.subset_append_of_subset_right _ (List.subset_append_right _ _)
  · obtain rfl := Option.some.inj h
    refine .enclosing (List.nil_append later).symm hread hpage rfl (hline.trans ?_) (hnodes.append .nil)
    exact (hkeeps.among (List.subset_append_left _ _)).join (.white fun c hc => List.all_eq_true.mp hends c hc)

/-- A formula keeps the lines between its delimiters, and nothing stands beside these. -/
theorem mathBlock_form (h : mathBlock env line later = some result) :
    BlockForm env.source quoted line later result.value := by
  have hread := mathBlock_read hs hlines hhi h
  obtain ⟨hfence, body, close, rest, hsplit, hvalue⟩ := mathBlock_eq h
  rw [hvalue] at hread ⊢
  obtain ⟨last, hbody, hclose, hrest, hcloses⟩ := splitFence_lines hlines.2.2 hsplit
  have happend := splitFence_append hsplit
  have hbodyPage : Page env.source quoted body := by
    rw [happend] at hpage
    exact (show Page env.source quoted ([line] ++ ((body ++ close.toList) ++ rest)) from hpage).right.left.left
  have hbound := Nat.le_trans (Nat.le_trans hclose.le hrest.le) hhi
  obtain ⟨hcontent, hinner⟩ := mathContent_form quoted he hs hbody hbound hbodyPage
  have hfirst : Keeps env.source quoted [line] ([leafOf env.source .mathDelim (contentStart env.source line)
      (contentStart env.source line + 2)].map Node.span) := keeps_mathFence quoted hfence
  have hclosing := keeps_leaves .mathDelim fun l hl => keeps_mathFence quoted (hcloses l hl)
  refine .enclosing happend hread hpage rfl ?_ ((hcontent.cons (.leafOf rfl)).append (leaves_formed rfl _ _ _))
  refine (hfirst.among ?_).cons ((hinner.among ?_).append (hclosing.among ?_))
  · exact List.cons_subset_cons _ (List.nil_subset _)
  · exact List.subset_append_of_subset_left _ (List.subset_cons_self _ _)
  · exact List.subset_append_right _ _

/-- A heading keeps its line. -/
theorem headingBlock_form (h : headingBlock env line later = some result) :
    BlockForm env.source quoted line later result.value := by
  have hread := headingBlock_read hs hlines hhi h
  obtain ⟨_, hend, hstop⟩ := content_bounds hlines hhi List.mem_cons_self
  obtain ⟨level, hlevel, hvalue⟩ := headingBlock_eq h
  rw [hvalue] at hread ⊢
  have hwidth := headingLevel?_bound hlevel
  rw [length_unindented hstop] at hwidth
  have hbehind : contentStart env.source line + level ≤ line.stop := by omega
  have hbounds := trimmed_bounds env.source hbehind hstop
  obtain ⟨hnodes, hcontent⟩ := headingContent_form quoted he hs (Nat.le_trans hbounds.2 hstop)
  have hkeeps := (keeps_content env.source quoted line).trans (keeps_heading hcontent)
  have hparts := fill_formed (filled_run_children hread.fits) (BlockForm.inside hread hpage id hkeeps.before)
    (hnodes.cons (.leafOf rfl))
  refine .of (List.nil_append later).symm (.holding (by decide) hparts (heading_holds hcontent fun _ => hbounds)) ?_
  exact hkeeps.filled hread.fits

/-- A quotation keeps its lines, and its markers stand in it. -/
theorem quoteBlock_form (h : quoteBlock env line later = some result) :
    BlockForm env.source quoted line later result.value := by
  have hread := quoteBlock_read hs hlines hhi h
  unfold quoteBlock at h
  dsimp only at h
  split at h
  · exact absurd h (by simp)
  rename_i hquoted
  rw [Bool.not_eq_true', Bool.not_eq_false] at hquoted
  obtain rfl := Option.some.inj h
  simp only [List.takeWhile_cons, List.dropWhile_cons, hquoted, if_true] at hread ⊢
  have hmarked : ∀ l ∈ later.takeWhile fun l => (unindented env.source l).head? == some '>',
      (unindented env.source l).head? = some '>' := fun l hl =>
    eq_of_beq (List.mem_takeWhile_imp (p := fun l => (unindented env.source l).head? == some '>') hl)
  have hsplit := (List.takeWhile_append_dropWhile (p := fun l => (unindented env.source l).head? == some '>')
    (l := later)).symm
  generalize later.takeWhile (fun l => (unindented env.source l).head? == some '>') = body at hread hmarked hsplit ⊢
  generalize later.dropWhile (fun l => (unindented env.source l).head? == some '>') = rest at hread hsplit ⊢
  subst hsplit
  obtain ⟨hbody, hrest⟩ := hlines.2.2.split
  have hbound := Nat.le_trans hrest.le hhi
  have hinner := unquoted_lines hbody hbound (eq_of_beq hquoted) hmarked
  obtain ⟨hinnerPage, hmargins⟩ := unquoted_page
    (show Page env.source quoted ((line :: body) ++ rest) from hpage).left
    (List.forall_mem_cons.mpr ⟨eq_of_beq hquoted, hmarked⟩)
  have hlast : (((line :: body).getLast?.map Span.stop).getD line.stop) = lastStop line.stop body :=
    lastStop_cons line.stop line body
  rw [hlast] at hread ⊢
  rw [value_bind] at hread ⊢
  have hspread := hs.nested hinner hbound
  obtain ⟨hnodes, hkeeps⟩ := he.nested True hinner hbound hinnerPage
  have hall := hmargins.trans hkeeps
  generalize (env.nested ((line :: body).map (unquote env.source))).value = nodes at hread hspread hnodes hall ⊢
  have hsome : contentStart env.source line < lastStop line.stop body := by
    have hmark := unquote_bounds (eq_of_beq hquoted)
    have hle := hbody.le
    omega
  obtain ⟨hstart, hfits, hend⟩ := (filled_run .blockquote hspread hbound (.inl hsome)).of_cons
  have hparts := fill_formed (filled_run_children hfits)
    (BlockForm.inside hread hpage (fun _ => trivial) hall.before) hnodes
  refine .of rfl (.inner (by decide) (fun hholds => absurd hholds Bool.false_ne_true) fun child hchild => ?_) ?_
  · exact (hparts child hchild).mono fun _ => .inr rfl
  · -- only the indentation of the first line stands in front of the quotation
    refine ((keeps_content env.source quoted line).trans ?_).cons (.each fun l hl => ?_)
    · exact .part (List.mem_singleton_self _) (Nat.le_of_eq hstart) (Nat.le_trans hbody.le (Nat.le_of_eq hend.chain.symm))
    · obtain ⟨hfrom, _, hto⟩ := hbody.mem hl
      refine .part (List.mem_singleton_self _) (Nat.le_trans (Nat.le_of_eq hstart) ?_)
        (Nat.le_trans hto (Nat.le_of_eq hend.chain.symm))
      exact Nat.le_trans (content_bounds hlines hhi List.mem_cons_self).2.1 hfrom

/-- An item of a list keeps its lines. -/
theorem listItem_form {marker : ListMarker} (hmarker : ListMarker.read? (unindented env.source line) = some marker) :
    BlockForm env.source quoted line later (listItem env line marker later).value := by
  have hread := listItem_read hs hlines hhi hmarker
  obtain ⟨_, hend, hstop⟩ := content_bounds hlines hhi List.mem_cons_self
  obtain ⟨_, hwidth⟩ := ListMarker.read?_bound hmarker
  rw [length_unindented hstop] at hwidth
  unfold listItem at hread ⊢
  dsimp only at hread ⊢
  generalize hafter : contentStart env.source line + marker.width = after at hread ⊢
  generalize hrun : runLength isBlank (env.source.slice after line.stop) = run at hread ⊢
  generalize hblanks : (if (decide (4 < run) || after + run == line.stop) = true then min run 1 else run) = blanks
    at hread ⊢
  generalize indentOf env.source line + marker.width + max blanks 1 = column at hread ⊢
  generalize hfront : min (after + blanks) line.stop = front at hread ⊢
  have hle : blanks ≤ run := by
    rw [← hblanks]
    split
    · exact Nat.min_le_left _ _
    · exact Nat.le_refl _
  have hblank : ∀ p, after ≤ p → p < front → ∀ c, env.source.chars[p]? = some c → isBlank c = true := by
    intro p hfrom hto c hc
    have hrunStop : p < after + runLength isBlank (env.source.slice after line.stop) := by omega
    exact Source.of_runLength hfrom hrunStop hc
  have hkeepsFront := keeps_itemFront env.source quoted line hblank
  obtain ⟨taken, hsplit, hitem⟩ := itemLines_taken env.source column true later
  rw [hitem] at hread ⊢
  generalize (itemLines env.source column true later).2 = rest at hread hsplit ⊢
  subst hsplit
  have hcontent : contentStart env.source line ≤ (if hasTaskBox (env.source.slice front line.stop) then
      min (front + 4) line.stop else front) ∧ (if hasTaskBox (env.source.slice front line.stop) then
      min (front + 4) line.stop else front) ≤ line.stop := by
    split
    · omega
    · omega
  generalize (if hasTaskBox (env.source.slice front line.stop) then min (front + 4) line.stop else front) = content
    at hread hkeepsFront hcontent ⊢
  obtain ⟨hbody, hrest⟩ := hlines.2.2.split
  have hbound := Nat.le_trans hrest.le hhi
  have hinner : Lines content (lastStop line.stop taken) (⟨content, line.stop⟩ :: taken.map (strip env.source column)) :=
    ⟨Nat.le_refl _, hcontent.2, hbody.map fun l hl => strip_bounds column (hbody.mem hl).2.1
      (Nat.le_trans (hbody.mem hl).2.2 hbound)⟩
  have hitemPage := page_item column
    (show Page env.source quoted ((line :: taken) ++ rest) from hpage).left hcontent.1
  obtain ⟨hnodes, hkeeps⟩ := he.nested quoted hinner hbound hitemPage
  rw [value_bind] at hread ⊢
  generalize (env.nested (⟨content, line.stop⟩ :: taken.map (strip env.source column))).value = blocks
    at hread hnodes hkeeps ⊢
  refine .filled hread hpage rfl (List.suffix_append _ _) (Keeps.before ?_)
    (((Each.optional (.single (.leafOf rfl))).cons (.leafOf rfl)).append hnodes)
  have hfirst : Keeps env.source quoted [⟨content, line.stop⟩] (blocks.map Node.span) :=
    ((Keeps.first _ _).trans hkeeps)
  have htaken : Keeps env.source quoted taken (blocks.map Node.span) :=
    ((Keeps.map fun l _ => keeps_margin (strip_margin env.source quoted column l) rfl).trans
      ((Keeps.refl _).subset (List.subset_cons_self _ _))).trans hkeeps
  refine ((keeps_content env.source quoted line).trans (.join (hkeepsFront.among ?_) (hfirst.among ?_))).cons
    (htaken.among ?_)
  · exact List.subset_append_left _ _
  · exact List.subset_append_right _ _
  · exact List.subset_append_right _ _

omit hlines hhi hpage in
/-- The items of a list keep their lines, and the blank lines between them are idle. -/
theorem listItems_form (indent : Nat) (first : ListMarker) (fuel : Nat) {line : Span} {later : List Span} {lo : Nat}
    {marker : ListMarker} (hlines : Lines lo (lastStop line.stop later) (line :: later))
    (hhi : lastStop line.stop later ≤ env.source.size) (hpage : Page env.source quoted (line :: later))
    (hmarker : ListMarker.read? (unindented env.source line) = some marker) (hfuel : later.length < fuel) :
    Each (Formed env.source quoted) (listItems env indent first fuel line marker later).value.1 ∧
      (listItems env indent first fuel line marker later).value.2 <:+ later ∧
      Keeps env.source quoted (line :: later)
        ((listItems env indent first fuel line marker later).value.1.map Node.span ++
          (listItems env indent first fuel line marker later).value.2) := by
  induction fuel generalizing lo line later marker with
  | zero => exact absurd hfuel (Nat.not_lt_zero _)
  | succ fuel ih =>
      have hitem := listItem_form hlines hhi hpage he hs hmarker
      unfold listItems
      dsimp only
      rw [value_bind]
      generalize (listItem env line marker later).value = result at hitem
      obtain ⟨item, rest⟩ := result
      have hone : Each (Formed env.source quoted) [item] ∧ rest <:+ later ∧
          Keeps env.source quoted (line :: later) ([item].map Node.span ++ rest) :=
        ⟨.single hitem.formed, hitem.rest, hitem.keeps⟩
      dsimp only
      cases hdrop : rest.dropWhile (isBlankLine env.source) with
      | nil => exact hone
      | cons next lines =>
          dsimp only
          cases hother : ListMarker.read? (unindented env.source next) with
          | none => exact hone
          | some marker' =>
              dsimp only
              split
              · obtain ⟨taken, htaken⟩ := hitem.rest
                have hrest : rest = rest.takeWhile (isBlankLine env.source) ++ next :: lines := by
                  rw [← hdrop, List.takeWhile_append_dropWhile]
                have hall : line :: later = (line :: (taken ++ rest.takeWhile (isBlankLine env.source))) ++
                    next :: lines := by
                  rw [← htaken, List.cons_append, List.append_assoc, ← hrest]
                have hsuffix : next :: lines <:+ later :=
                  (hrest ▸ List.suffix_append _ _ : next :: lines <:+ rest).trans hitem.rest
                have hlength := hsuffix.length_le
                rw [List.length_cons] at hlength
                rw [hall] at hlines hpage
                have hnext := hlines.split.2
                obtain ⟨hformed, hleft, hkeeps⟩ := ih (Lines.tight hnext)
                  (Nat.le_trans hnext.2.2.lastStop_bounds.2 hhi) hpage.right hother (by omega)
                refine ⟨hformed.cons hitem.formed, hleft.trans ((List.suffix_cons next lines).trans hsuffix), ?_⟩
                refine hitem.keeps.trans (.cons (.first _ _) ?_)
                show Keeps env.source quoted rest _
                rw [hrest]
                refine .append (.each fun l hl => keeps_blankLine (List.mem_takeWhile_imp hl)) (hkeeps.subset ?_)
                exact List.subset_cons_self _ _
              · exact hone

theorem listBlock_form (h : listBlock env line later = some result) :
    BlockForm env.source quoted line later result.value := by
  have hread := listBlock_read hs hlines hhi h
  obtain ⟨marker, hmarker, h⟩ := Option.bind_eq_some_iff.mp h
  obtain rfl := Option.some.inj h
  obtain ⟨hformed, hleft, hkeeps⟩ := listItems_form he hs (indentOf env.source line) marker (later.length + 1)
    hlines hhi hpage hmarker (Nat.lt_succ_self _)
  have hkind : marker.listKind.isOrdinary = true := by
    unfold ListMarker.listKind
    split <;> rfl
  exact .filled hread hpage hkind hleft hkeeps hformed

/-- A table keeps its lines; its second line holds the delimiters only. -/
theorem tableBlock_form (h : tableBlock env line later = some result) :
    BlockForm env.source quoted line later result.value := by
  have hread := tableBlock_read hs hlines hhi h
  obtain ⟨_, _, hstop⟩ := content_bounds hlines hhi List.mem_cons_self
  unfold tableBlock at h
  dsimp only at h
  cases later with
  | nil => exact absurd h (by simp)
  | cons delimiter rest =>
      dsimp only at h
      split at h
      · exact absurd h (by simp)
      rename_i hpipe
      rw [Bool.not_eq_true', Bool.not_eq_false, List.contains_iff_mem] at hpipe
      obtain ⟨count, _, h⟩ := Option.bind_eq_some_iff.mp h
      split at h
      · exact absurd h (by simp)
      obtain rfl := Option.some.inj h
      have hlt : contentStart env.source line < line.stop := by
        have hsome := List.length_pos_of_mem hpipe
        rw [length_unindented hstop] at hsome
        omega
      obtain ⟨hheader, hheaderKeeps⟩ : Formed env.source quoted (tableRow env .tableHeader line).value ∧
          Keeps env.source quoted [line] [(tableRow env .tableHeader line).value.span] :=
        tableRow_form quoted he hs rfl hlines.2.1 hstop hlt
      have hsplit : delimiter :: rest = (delimiter :: rest.takeWhile fun l => !isBlankLine env.source l &&
          (unindented env.source l).contains '|' && !startsBlock env.source l) ++
          rest.drop (rest.takeWhile fun l => !isBlankLine env.source l &&
            (unindented env.source l).contains '|' && !startsBlock env.source l).length := by
        rw [← dropWhile_eq_drop, List.cons_append, List.takeWhile_append_dropWhile]
      have hrows : ∀ l ∈ rest.takeWhile fun l => !isBlankLine env.source l &&
          (unindented env.source l).contains '|' && !startsBlock env.source l, isBlankLine env.source l = false := by
        intro l hl
        have hrow := List.mem_takeWhile_imp hl
        rw [Bool.and_eq_true, Bool.and_eq_true, Bool.not_eq_true'] at hrow
        exact hrow.1.1
      generalize (rest.takeWhile fun l => !isBlankLine env.source l && (unindented env.source l).contains '|' &&
        !startsBlock env.source l) = body at hread hsplit hrows ⊢
      generalize rest.drop body.length = left at hread hsplit ⊢
      obtain rfl := (List.cons.inj hsplit).2
      obtain ⟨hbody, hleft⟩ := hlines.2.2.2.2.split
      obtain ⟨hformed, hkeeps⟩ := tableRows_form quoted he hs hbody (Nat.le_trans hleft.le hhi) hrows
      have hdelimiter := keeps_row env.source quoted delimiter
      have htaken : Keeps env.source quoted (line :: delimiter :: body) (((tableRow env .tableHeader line).value ::
          leafOf env.source .tableDelimiter (contentStart env.source delimiter) (rowStop env.source delimiter) ::
          (tableRows env body).value).map Node.span) := by
        refine (hheaderKeeps.subset ?_).cons ((hdelimiter.subset ?_).cons (hkeeps.subset ?_))
        · exact List.cons_subset_cons _ (List.nil_subset _)
        · exact List.subset_cons_of_subset _ (List.cons_subset_cons _ (List.nil_subset _))
        · exact List.subset_cons_of_subset _ (List.subset_cons_self _ _)
      exact .filled hread hpage rfl (List.suffix_append (delimiter :: body) left) htaken.before
        ((hformed.cons (.leafOf rfl)).cons hheader)

theorem paragraph_form (hsome : isBlankLine env.source line = false) :
    BlockForm env.source quoted line later (paragraph env line later).value := by
  obtain ⟨_, hend, hstop⟩ := content_bounds hlines hhi List.mem_cons_self
  have hlt := contentStart_lt hstop hsome
  have hsplit : later = (later.takeWhile fun l => !isBlankLine env.source l && !startsBlock env.source l) ++
      later.drop (later.takeWhile fun l => !isBlankLine env.source l && !startsBlock env.source l).length := by
    rw [← dropWhile_eq_drop, List.takeWhile_append_dropWhile]
  unfold paragraph
  dsimp only
  generalize (later.takeWhile fun l => !isBlankLine env.source l && !startsBlock env.source l) = body at hsplit ⊢
  generalize later.drop body.length = rest at hsplit ⊢
  subst hsplit
  obtain ⟨hbody, hrest⟩ := hlines.2.2.split
  have hbound := Nat.le_trans hrest.le hhi
  have hregion := content_region hbody hbound hend
  have hcontent : Page env.source quoted ((line :: body).map fun l => ⟨contentStart env.source l, l.stop⟩) :=
    (show Page env.source quoted ((line :: body) ++ rest) from hpage).left.narrow id fun l _ =>
      ⟨Nat.le_add_right _ _, rfl, content_margin env.source quoted l⟩
  obtain ⟨hnodes, hholds⟩ := he.region quoted hregion hbound hcontent.breaks .full
  have hrun := hs.inline .full hregion hbound
  rw [value_bind]
  have hspan := hrun.branch_span (.markup .paragraph) (hrun.ne_nil (Nat.lt_of_lt_of_le hlt hbody.le))
  refine .of rfl (.holding (by decide) hnodes hholds.hold) ?_
  have hpart : Keeps env.source quoted (line :: body) [⟨contentStart env.source line, lastStop line.stop body⟩] := by
    refine ((keeps_content env.source quoted line).trans ?_).cons (.each fun l hl => ?_)
    · exact .part (List.mem_singleton_self _) (Nat.le_refl _) hbody.le
    · obtain ⟨hfrom, _, hto⟩ := hbody.mem hl
      exact .part (List.mem_singleton_self _) (Nat.le_trans hend hfrom) hto
  exact hpart.trans (.part (List.mem_singleton.mpr hspan.symm) (Nat.le_refl _) (Nat.le_refl _))

/-- **Every block is formed and keeps its lines.** -/
theorem readBlock_form (hsome : isBlankLine env.source line = false) :
    BlockForm env.source quoted line later (readBlock env line later).value := by
  have hrules : ∀ rule ∈ blockRules, ∀ result, rule env line later = some result →
      BlockForm env.source quoted line later result.value := by
    intro rule hrule result h
    simp only [blockRules, List.mem_cons, List.not_mem_nil, or_false] at hrule
    rcases hrule with rfl | rfl | rfl | rfl | rfl | rfl | rfl | rfl | rfl | rfl
    · exact commentBlock_form hlines hhi hpage h
    · exact scriptBlock_form hlines hhi hpage h
    · exact attributeBlock_form hlines hhi hpage h
    · exact componentBlock_form hlines hhi hpage he hs h
    · exact mathBlock_form hlines hhi hpage he hs h
    · exact codeBlock_form hlines hhi hpage h
    · exact headingBlock_form hlines hhi hpage he hs h
    · exact quoteBlock_form hlines hhi hpage he hs h
    · exact listBlock_form hlines hhi hpage he hs h
    · exact tableBlock_form hlines hhi hpage he hs h
  unfold readBlock
  cases hfound : blockRules.findSome? fun rule => rule env line later with
  | none => exact paragraph_form hlines hhi hpage he hs hsome
  | some result =>
      obtain ⟨rule, hrule, h⟩ := List.exists_of_findSome?_eq_some hfound
      exact hrules rule hrule result h

end Rules

/-! ## Documents -/

/-- The blocks of a list of lines are formed, and keep what the lines hold. -/
theorem readBlocks_form {env : BlockEnv} (he : env.Forms) (hs : env.Sound) (fuel : Nat) {lines : List Span}
    (hlines : Lines lo hi lines) (hhi : hi ≤ env.source.size) (hpage : Page env.source quoted lines)
    (hfuel : lines.length ≤ fuel) : Each (Formed env.source quoted) (readBlocks env fuel lines).value ∧
      Keeps env.source quoted lines ((readBlocks env fuel lines).value.map Node.span) := by
  induction fuel generalizing lo lines with
  | zero =>
      rw [List.length_eq_zero_iff.mp (Nat.le_zero.mp hfuel)]
      exact ⟨.nil, .nil _⟩
  | succ fuel ih =>
      cases lines with
      | nil => exact ⟨.nil, .nil _⟩
      | cons line later =>
          rw [List.length_cons] at hfuel
          unfold readBlocks
          split
          · rename_i hblank
            obtain ⟨hnodes, hkeeps⟩ := ih hlines.2.2 (show Page env.source quoted ([line] ++ later) from hpage).right
              (by omega)
            exact ⟨hnodes, (keeps_blankLine hblank).cons hkeeps⟩
          · rename_i hsome
            have hblock := readBlock_form (Lines.tight hlines)
              (Nat.le_trans hlines.2.2.lastStop_bounds.2 hhi) hpage he hs (Bool.eq_false_iff.mpr hsome)
            obtain ⟨taken, htaken⟩ := hblock.rest
            have hlength := hblock.rest.length_le
            have hall : line :: later = (line :: taken) ++ (readBlock env line later).value.2 :=
              congrArg (line :: ·) htaken.symm
            have hleft : Lines (lastStop lo (line :: taken)) hi (readBlock env line later).value.2 :=
              (hall ▸ hlines : Lines lo hi ((line :: taken) ++ (readBlock env line later).value.2)).split.2
            have hleftPage : Page env.source quoted (readBlock env line later).value.2 :=
              (hall ▸ hpage : Page env.source quoted ((line :: taken) ++ (readBlock env line later).value.2)).right
            obtain ⟨hnodes, hkeeps⟩ := ih hleft hleftPage (by omega)
            refine ⟨hnodes.cons hblock.formed, hblock.keeps.trans (.cons (.first _ _) (hkeeps.subset ?_))⟩
            exact List.subset_cons_self _ _

/-- **The blocks of a list of lines are formed, and keep what the lines hold**, however deep blocks may nest. -/
theorem blockNodes_form (levels : Nat) (quoted : Prop) {lines : List Span} (hlines : Lines lo hi lines)
    (hhi : hi ≤ src.size) (hpage : Page src quoted lines) :
    Each (Formed src quoted) (blockNodes src levels lines).value ∧
      Keeps src quoted lines ((blockNodes src levels lines).value.map Node.span) := by
  induction levels generalizing quoted lo hi lines with
  | zero =>
      unfold blockNodes
      dsimp only
      refine ⟨.optional (.single (.leafOf rfl)), ?_⟩
      cases lines with
      | nil => exact .nil _
      | cons first later =>
          have hstop : (((first :: later).getLast?.map Span.stop).getD 0) = lastStop first.stop later :=
            lastStop_cons 0 first later
          rw [hstop]
          refine Keeps.trans (.each fun l hl => ?_) (keeps_optionalLeaf src quoted .text first.start
            (lastStop first.stop later))
          have hbounds := (Region.of_lines hlines).lines.mem hl
          exact .part (List.mem_singleton_self _) hbounds.1 hbounds.2.2
  | succ levels ih =>
      have hs : BlockEnv.Sound
          { source := src, inline := inlineNodes src (levels - 1), nested := blockNodes src levels } :=
        ⟨fun mode hregion hto => inlineNodes_run (levels - 1) hregion hto mode, fun hlines hto =>
          blockNodes_spread levels hlines hto⟩
      have he : BlockEnv.Forms
          { source := src, inline := inlineNodes src (levels - 1), nested := blockNodes src levels } :=
        ⟨⟨levels - 1, rfl⟩, fun quoted _ _ _ hlines hto hpage => ih quoted hlines hto hpage⟩
      exact readBlocks_form he hs lines.length hlines hhi hpage (Nat.le_refl _)

/-- A tree over formed nodes that is no trivia and no body of a command. -/
theorem branchAt_formed {kind : MarkupKind} {place : Nat} {nodes : List Node}
    (hkind : kind.isTrivia = false ∧ kind ≠ .contentBlock)
    (hregion : kind.holdsInline = true → HoldRegion src (modeOf kind) (nodes.map Node.tag)) (hnodes : Each (Formed src quoted) nodes) :
    Formed src quoted (.branchAt (.markup kind) place nodes) := by
  have hbranch : ∀ span count faulty, Formed src quoted (.inner (.markup kind) span none count faulty nodes) :=
    fun _ _ _ => .inner hkind hregion fun child hchild => (hnodes child hchild).mono .inl
  cases nodes with
  | nil => exact hbranch _ _ _
  | cons node nodes => exact hbranch _ _ _

/-- **The tree of a document is formed**, whatever the text. -/
theorem readDocument_formed {s : Span} (hle : s.start ≤ s.stop) (hstop : s.stop ≤ src.size) :
    Formed src quoted (readDocument src s).value := by
  have hregion := lineSpans_region hle hstop
  have hpage := lineSpans_page src quoted s
  obtain ⟨hnodes, hkeeps⟩ := blockNodes_form (maxDepth + 1) quoted hregion.lines hstop hpage
  have hrun := fill_run (blockNodes_spread (maxDepth + 1) hregion.lines hstop) hstop
  have hlines : Keeps src quoted [⟨s.start, s.stop⟩] (lineSpans src s) := by
    obtain ⟨first, later, hsplit, hfirst, _, _, hlast⟩ := hregion
    rw [hsplit] at hpage ⊢
    have hall := page_keeps hpage
    rwa [hfirst, hlast] at hall
  exact branchAt_formed (by decide) (fun hholds => absurd hholds Bool.false_ne_true)
    (fill_formed hrun (hlines.trans hkeeps) hnodes)

/-- **The tree of inline content is formed**, whatever the text. -/
theorem readInlineContent_formed {s : Span} (hle : s.start ≤ s.stop) (hstop : s.stop ≤ src.size) :
    Formed src quoted (readInlineContent src s).value := by
  have hregion := lineSpans_region hle hstop
  have hnodes := inlineNodes_formed maxDepth hregion hstop (lineSpans_page src quoted s).breaks .full
  exact branchAt_formed (by decide)
    (fun _ => IsRegion.hold (.inr (.inr ⟨maxDepth, _, _, _, hregion, hstop, rfl⟩))) hnodes

end ComponentMarkup.Markup
