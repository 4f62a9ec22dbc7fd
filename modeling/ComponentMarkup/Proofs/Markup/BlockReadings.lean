import ComponentMarkup.Proofs.Markup.BlockForms
import ComponentMarkup.Proofs.Markup.ReadingTrees

/-!
# The regions of a document

Paragraphs, headings, cells, formulas and the content of components on their lines hold inline content.  Each hands its
rules a region whose lines have line breaks between them, and none of which starts right behind a backslash.

* `Sheet` — the lines that blocks are read from, and what is taken off them on the way down;
* `Laid` — a tree of blocks, in which inline content stands as its regions are read;
* `readDocument_laid` — the tree of a document is one.
-/

namespace ComponentMarkup.Tree

/-- Nesting gets too deep on the way to a value only where something holds. -/
def Limited.Calm {α : Type} (deep : Prop) (x : Limited α) : Prop :=
  x.overflow.isSome = true → deep

variable {α β : Type} {deep : Prop} {x : Limited α} {f : α → Limited β}

/-- What is done on the way to a value, and what is done with what it gives. -/
theorem Limited.Calm.of_bind (h : (x >>= f).Calm deep) : x.Calm deep ∧ (f x.value).Calm deep := by
  have hboth : (x >>= f).overflow = Limited.first x.overflow (f x.value).overflow := rfl
  refine ⟨fun hx => h ?_, fun hf => h ?_⟩
  · rw [hboth]
    obtain ⟨place, hplace⟩ := Option.isSome_iff_exists.mp hx
    rw [hplace]
    rfl
  · rw [hboth]
    cases x.overflow with
    | none => exact hf
    | some place => rfl

end ComponentMarkup.Tree

namespace ComponentMarkup.Text

variable {src : Source} {a b : Nat}

/-- No backslash stands right before a place. -/
def Clear (src : Source) (place : Nat) : Prop :=
  slashes src 0 place = 0

namespace Clear

theorem zero (src : Source) : Clear src 0 :=
  rfl

theorem of_char {c : Char} (h : src.chars[a]? = some c) (hc : c ≠ '\\') : Clear src (a + 1) :=
  slashes_other fun hslash => hc (Option.some.inj (h.symm.trans hslash))

/-- No backslash stands before a place if none stands between an earlier one and it. -/
theorem behind (h : Clear src a) (hle : a ≤ b) (hclean : ∀ c ∈ src.slice a b, c ≠ '\\') : Clear src b := by
  cases b with
  | zero => rfl
  | succ p =>
      by_cases hsame : a = p + 1
      · exact hsame ▸ h
      · refine slashes_other fun hslash => hclean '\\' (Source.mem_slice.mpr ⟨p, ?_, Nat.lt_succ_self p, hslash⟩) rfl
        omega

/-- A run of characters that are no backslashes. -/
theorem run {f : Char → Bool} {stop : Nat} (h : Clear src a) (htest : f '\\' = false)
    (hle : b ≤ a + runLength f (src.slice a stop)) (hab : a ≤ b) : Clear src b := by
  refine h.behind hab fun c hc heq => ?_
  obtain ⟨p, hp, hlt, hchar⟩ := Source.mem_slice.mp hc
  have hall := Source.of_runLength hp (Nat.lt_of_lt_of_le hlt hle) hchar
  rw [heq, htest] at hall
  exact absurd hall Bool.false_ne_true

end Clear

/-- A margin holds no backslash. -/
theorem IsMargin.ne_backslash {quoted : Prop} {c : Char} (h : IsMargin quoted c) : c ≠ '\\' := by
  rintro rfl
  exact h.elim (fun hblank => absurd hblank (by decide)) fun hquote => absurd hquote.2 (by decide)

end ComponentMarkup.Text

namespace ComponentMarkup.Markup

open ComponentMarkup.Text ComponentMarkup.Tree

variable {src : Source} {deep : Prop} {line : Span} {later lines : List Span} {kind : MarkupKind}

/-! ## Lines -/

/-- Lines that blocks are read from: one behind the other, with line breaks between them, and none of them right behind
a backslash. -/
structure Sheet (src : Source) (lines : List Span) : Prop where
  ordered : ∃ lo, Lines lo src.size lines
  page : Page src True lines
  clear : ∀ line ∈ lines, Clear src line.start

namespace Sheet

/-- Lines behind one that starts behind no backslash do not, either. -/
theorem of_first {lo : Nat} (h : Lines lo src.size (line :: later)) (hpage : Page src True (line :: later))
    (hclear : Clear src line.start) : Sheet src (line :: later) := by
  refine ⟨⟨lo, h⟩, hpage, ?_⟩
  have hbreaks := hpage.breaks
  clear h hpage
  induction later generalizing line with
  | nil => exact List.forall_mem_singleton.mpr hclear
  | cons next later ih =>
      obtain ⟨⟨hle, ending, margin, hsplit, hending, hmargin⟩, hrest⟩ := List.isChain_cons_cons.mp hbreaks
      refine List.forall_mem_cons.mpr ⟨hclear, ih ?_ hrest⟩
      -- the line end in front of the next line holds no backslash, so it does not matter what stands before it
      have hclean : ∀ c ∈ src.slice line.stop next.start, c ≠ '\\' := by
        rw [hsplit]
        intro c hc
        rcases List.mem_append.mp hc with hc | hc
        · rintro rfl
          exact absurd (hending.isNewline _ hc) (by decide)
        · exact (hmargin c hc).ne_backslash
      have hlt : line.stop < next.start := by
        refine Nat.lt_of_le_of_ne hle fun heq => hending.ne_nil ?_
        rw [heq, src.slice_self] at hsplit
        exact (List.append_eq_nil_iff.mp hsplit.symm).1
      have hlast : next.start = next.start - 1 + 1 := by omega
      rw [hlast]
      refine slashes_other fun hslash => ?_
      exact hclean '\\' (Source.mem_slice.mpr ⟨_, by omega, by omega, hslash⟩) rfl

theorem left {first last : List Span} (h : Sheet src (first ++ last)) : Sheet src first := by
  obtain ⟨lo, hlines⟩ := h.ordered
  obtain ⟨hfirst, hlast⟩ := hlines.split
  exact ⟨⟨lo, hfirst.mono (Nat.le_refl lo) hlast.le⟩, h.page.left, fun l hl => h.clear l (List.mem_append_left _ hl)⟩

theorem right {first last : List Span} (h : Sheet src (first ++ last)) : Sheet src last := by
  obtain ⟨lo, hlines⟩ := h.ordered
  exact ⟨⟨_, hlines.split.2⟩, h.page.right, fun l hl => h.clear l (List.mem_append_right _ hl)⟩

theorem suffix {rest : List Span} (h : Sheet src lines) (hrest : rest <:+ lines) : Sheet src rest := by
  obtain ⟨gone, rfl⟩ := hrest
  exact h.right

/-- Where a line of a sheet ends. -/
theorem bounds (h : Sheet src lines) (hline : line ∈ lines) : line.start ≤ line.stop ∧ line.stop ≤ src.size := by
  obtain ⟨lo, hlines⟩ := h.ordered
  exact (hlines.mem hline).2

/-- A sheet with more taken off where its lines start. -/
theorem narrow {f : Span → Span} (h : Sheet src lines) (hf : ∀ line ∈ lines, line.start ≤ (f line).start ∧
    (f line).start ≤ (f line).stop ∧ (f line).stop = line.stop ∧
      ∀ c ∈ src.slice line.start (f line).start, IsMargin True c) : Sheet src (lines.map f) := by
  obtain ⟨lo, hlines⟩ := h.ordered
  refine ⟨⟨lo, hlines.map fun l hl => ⟨(hf l hl).1, (hf l hl).2.1, Nat.le_of_eq (hf l hl).2.2.1⟩⟩,
    h.page.narrow id fun l hl => ⟨(hf l hl).1, (hf l hl).2.2.1, (hf l hl).2.2.2⟩, fun l hl => ?_⟩
  obtain ⟨old, hold, rfl⟩ := List.mem_map.mp hl
  exact (h.clear old hold).behind (hf old hold).1 fun c hc => ((hf old hold).2.2.2 c hc).ne_backslash

/-- A part of a line by itself. -/
theorem part {s : Span} (h : Sheet src lines) (hline : line ∈ lines) (hstart : line.start ≤ s.start)
    (hle : s.start ≤ s.stop) (hstop : s.stop ≤ line.stop) (hclear : Clear src s.start) : Sheet src [s] := by
  obtain ⟨hin, hsize⟩ := h.bounds hline
  refine ⟨⟨s.start, Nat.le_refl _, hle, Nat.le_trans hstop hsize⟩, ⟨.singleton s, fun l hl c hc => ?_⟩,
    List.forall_mem_singleton.mpr hclear⟩
  obtain rfl := List.mem_singleton.mp hl
  obtain ⟨p, hfrom, hto, hp⟩ := Source.mem_slice.mp hc
  exact h.page.clean line hline c
    (Source.mem_slice.mpr ⟨p, Nat.le_trans hstart hfrom, Nat.lt_of_lt_of_le hto hstop, hp⟩)

/-- The content of a line starts behind no backslash. -/
theorem content_clear (h : Sheet src lines) (hline : line ∈ lines) : Clear src (contentStart src line) :=
  (h.clear line hline).behind (Nat.le_add_right _ _) fun c hc => (content_margin src True line c hc).ne_backslash

/-- What a place and the places behind it on its line hold, without white space at the ends. -/
theorem trimmed {start stop : Nat} (h : Sheet src lines) (hline : line ∈ lines) (hstart : line.start ≤ start)
    (hle : start ≤ stop) (hstop : stop ≤ line.stop) (hclear : Clear src start)
    (hsome : (trimmed src start stop).start < (trimmed src start stop).stop) :
    Sheet src [Markup.trimmed src start stop] := by
  obtain ⟨hfrom, hto⟩ := trimmed_bounds src hle (Nat.le_trans hstop (h.bounds hline).2)
  exact h.part hline (Nat.le_trans hstart hfrom) (Nat.le_of_lt hsome) (Nat.le_trans hto hstop)
    (hclear.run (by decide) (Nat.le_refl _) hfrom)

/-- Lines without some of their indentation. -/
theorem strip (h : Sheet src lines) (columns : Nat) : Sheet src (lines.map (strip src columns)) := by
  refine h.narrow fun l hl => ?_
  obtain ⟨hstart, hle, _⟩ := strip_bounds columns (h.bounds hl).1 (h.bounds hl).2
  exact ⟨hstart, hle, rfl, strip_margin src True columns l⟩

/-- Lines without their indentation. -/
theorem content (h : Sheet src lines) : Sheet src (lines.map fun l => ⟨contentStart src l, l.stop⟩) := by
  refine h.narrow fun l hl => ?_
  obtain ⟨hstart, hle⟩ := contentStart_bounds (h.bounds hl).1 (h.bounds hl).2
  exact ⟨hstart, hle, rfl, content_margin src True l⟩

/-- The lines of an item, the first one from some place on it on. -/
theorem item {content column : Nat} {goesOn : Bool} (h : Sheet src (line :: later))
    (hstart : contentStart src line ≤ content) (hle : content ≤ line.stop) (hclear : Clear src content) :
    Sheet src (⟨content, line.stop⟩ :: (itemLines src column goesOn later).1) := by
  obtain ⟨taken, hsplit, hitem⟩ := itemLines_taken src column goesOn later
  rw [hitem]
  generalize (itemLines src column goesOn later).2 = rest at hsplit
  subst hsplit
  have hfirst : Sheet src (line :: taken) := (show Sheet src ((line :: taken) ++ rest) from h).left
  obtain ⟨lo, hlines⟩ := (hfirst.strip column).ordered
  have hitems : Lines content src.size (⟨content, line.stop⟩ :: taken.map (Markup.strip src column)) :=
    ⟨Nat.le_refl _, hle, hlines.2.2⟩
  exact .of_first hitems (page_item column hfirst.page hstart) hclear

/-- Quoted lines without their markers. -/
theorem unquote (h : Sheet src lines) (hmarked : ∀ l ∈ lines, (unindented src l).head? = some '>') :
    Sheet src (lines.map (unquote src)) := by
  refine h.narrow fun l hl => ?_
  obtain ⟨hstart, hle, hstop⟩ := unquote_bounds (hmarked l hl)
  exact ⟨Nat.le_trans (Nat.le_add_right _ _) (Nat.le_of_lt hstart), hle, hstop, unquote_margin (hmarked l hl)⟩

end Sheet

/-- The marker of a list does not end with a backslash. -/
theorem ListMarker.read?_last {cs : List Char} {marker : ListMarker} (h : ListMarker.read? cs = some marker) :
    ∃ c, cs[marker.width - 1]? = some c ∧ c ≠ '\\' := by
  unfold ListMarker.read? at h
  split at h
  · exact absurd h (by simp)
  rename_i c rest
  split at h
  · rename_i hbullet
    split at h
    · obtain rfl := Option.some.inj h
      refine ⟨c, rfl, ?_⟩
      rintro rfl
      exact absurd hbullet (by decide)
    · exact absurd h (by simp)
  · dsimp only at h
    split at h
    · split at h
      · rename_i d after hdrop
        split at h
        · rename_i hdelimiter
          obtain rfl := Option.some.inj h
          refine ⟨d, ?_, ?_⟩
          · have hhead := congrArg List.head? hdrop
            rwa [List.head?_drop, List.head?_cons] at hhead
          · rintro rfl
            exact absurd hdelimiter (by simp)
        · exact absurd h (by simp)
      · exact absurd h (by simp)
    · exact absurd h (by simp)

/-- Where the content of an item starts, behind its marker and the blanks there: behind a task box, if there is one. -/
def itemContent (src : Source) (front stop : Nat) : Nat :=
  if hasTaskBox (src.slice front stop) then min (front + 4) stop else front

theorem itemContent_bounds (src : Source) {front stop : Nat} (h : front ≤ stop) :
    front ≤ itemContent src front stop ∧ itemContent src front stop ≤ stop := by
  unfold itemContent
  split
  · omega
  · omega

/-- The content of an item starts behind no backslash, with a task box before it or without. -/
theorem item_clear {marker : Nat} (front stop : Nat) (hclear : Clear src marker) (hle : marker ≤ front)
    (hblanks : ∀ p, marker ≤ p → p < front → ∀ c, src.chars[p]? = some c → isBlank c = true) :
    Clear src (itemContent src front stop) := by
  have hblank : ∀ {c}, isBlank c = true → c ≠ '\\' := by
    rintro c hc rfl
    exact absurd hc (by decide)
  have hfront : Clear src front := hclear.behind hle fun c hc => by
    obtain ⟨p, hfrom, hto, hp⟩ := Source.mem_slice.mp hc
    exact hblank (hblanks p hfrom hto c hp)
  unfold itemContent
  split
  · rename_i hbox
    have hlength := hasTaskBox_bound hbox
    have hle := src.length_slice_le front stop
    -- the box ends with a bracket, and at most a blank stands behind it
    have hbracket : src.chars[front + 2]? = some ']' := by
      have hthird : (src.slice front stop)[2]? = some ']' := by
        simp only [hasTaskBox, Bool.and_eq_true, Bool.or_eq_true, beq_iff_eq] at hbox
        have htake : ((src.slice front stop).take 3)[2]? = some ']' := by
          rcases hbox.1 with (h | h) | h <;> rw [h] <;> rfl
        rwa [List.getElem?_take_of_lt (by decide)] at htake
      exact (Source.of_getElem?_slice hthird).2
    refine (Clear.of_char hbracket (by decide)).behind (by omega) fun c hc => ?_
    obtain ⟨p, hfrom, hto, hp⟩ := Source.mem_slice.mp hc
    obtain rfl : p = front + 3 := by omega
    have hends := ((Bool.and_eq_true _ _).mp hbox).2
    rw [src.slice_drop] at hends
    rw [endsOrBlank, Source.head?_slice (by omega), hp] at hends
    exact hblank hends
  · exact hfront

/-- A cell of a row starts where the row does, or behind a pipe. -/
theorem cell_clear {start stop first last : Nat} {cell : Span} (hclear : Clear src start)
    (h : cell ∈ cutAt start stop (pipePlaces src first last)) : Clear src cell.start := by
  have hpipes : ∀ p ∈ pipePlaces src first last, Clear src (p + 1) := by
    intro p hp
    obtain ⟨⟨c, place⟩, hmem, hpipe⟩ := List.mem_filterMap.mp hp
    dsimp only at hpipe
    split at hpipe
    · rename_i hchar
      obtain rfl := Option.some.inj hpipe
      obtain ⟨hle, -, heq⟩ := List.mem_zipIdx hmem
      rw [Bool.and_eq_true, beq_iff_eq] at hchar
      have hslice : (src.slice first last)[place - first]? = some c := by rw [heq, List.getElem?_eq_getElem]
      have hplace := (Source.of_getElem?_slice hslice).2
      rw [Nat.add_sub_cancel' hle] at hplace
      exact .of_char hplace (hchar.1 ▸ by decide)
    · exact absurd hpipe (by simp)
  generalize pipePlaces src first last = places at h hpipes
  induction places generalizing start with
  | nil => exact List.mem_singleton.mp h ▸ hclear
  | cons place places ih =>
      rcases List.mem_cons.mp h with rfl | h
      · exact hclear
      · exact ih (hpipes place List.mem_cons_self) h fun p hp => hpipes p (List.mem_cons_of_mem _ hp)

/-- The colon behind the head of a component. -/
theorem componentHeader?_colon {start stop colon : Nat} {head : Head}
    (h : componentHeader? src start stop = some (head, .composite colon)) : src.chars[colon]? = some ':' := by
  obtain ⟨head', _, hform⟩ := Option.bind_eq_some_iff.mp h
  split at hform
  · obtain ⟨n, _, hrest⟩ := Option.bind_eq_some_iff.mp hform
    dsimp only at hrest
    split at hrest
    · exact absurd (Prod.mk.inj (Option.some.inj hrest)).2 (by simp)
    · exact absurd hrest (by simp)
  · obtain ⟨n, _, hrest⟩ := Option.bind_eq_some_iff.mp hform
    dsimp only at hrest
    split at hrest
    · exact absurd (Prod.mk.inj (Option.some.inj hrest)).2 (by simp)
    · exact absurd hrest (by simp)
  · split at hform
    · exact absurd hform (by simp)
    · split at hform
      · rename_i after hslice
        split at hform
        · obtain ⟨rfl, hcolon⟩ := Prod.mk.inj (Option.some.inj hform)
          obtain rfl := ComponentForm.composite.inj hcolon
          exact (Source.of_slice_cons hslice).2
        · exact absurd hform (by simp)
      · split at hform
        · exact absurd (Prod.mk.inj (Option.some.inj hform)).2 (by simp)
        · exact absurd hform (by simp)

/-! ## Regions -/

/-- A region of a document: lines with something but no brace between them, none of which starts behind a backslash. -/
structure Reading.Fair (r : Reading) : Prop where
  region : ∃ lo hi, Region lo hi r.segments ∧ hi ≤ r.source.size
  spaced : Spaced r.source r.segments
  clear : ∀ segment ∈ r.segments, Clear r.source segment.start

/-- The lines of a sheet are a region. -/
theorem Sheet.fair {levels : Nat} {mode : Mode} (h : Sheet src lines) (hne : lines ≠ []) :
    Reading.Fair ⟨src, levels, lines, mode⟩ := by
  obtain ⟨lo, hlines⟩ := h.ordered
  refine ⟨?_, .of_breaks h.page.breaks, h.clear⟩
  cases lines with
  | nil => exact absurd rfl hne
  | cons first later => exact ⟨_, _, Region.of_lines hlines, hlines.2.2.lastStop_bounds.2⟩

/-- A tree of blocks, in which inline content stands as its regions are read. -/
inductive Laid (deep : Prop) (src : Source) : Node → Prop where
  | leaf {kind : MarkupKind} {text : String} {span : Span} (kinds : kind = .text → deep) :
      Laid deep src (.leaf (.markup kind) text span)
  | branch {kind : MarkupKind} {span : Span} {host : Option Choice} {count : Nat} {faulty : Bool} {children : List Node}
      (kinds : kind.isCommand = false) (parts : ∀ n ∈ children, Laid deep src n) :
      Laid deep src (.inner (.markup kind) span host count faulty children)
  | region {kind : MarkupKind} {span : Span} {host : Option Choice} {count : Nat} {faulty : Bool}
      {front back : List Node} {levels : Nat} {segments : List Span} (kinds : kind.isCommand = false)
      (fair : Reading.Fair ⟨src, levels, segments, modeOf kind⟩)
      (calm : (inlineNodes src levels segments (modeOf kind)).Calm deep)
      (parts : ∀ n ∈ front ++ back, Laid deep src n) :
      Laid deep src (.inner (.markup kind) span host count faulty
        (front ++ (inlineNodes src levels segments (modeOf kind)).value ++ back))

namespace Laid

theorem leafOf {a b : Nat} (h : kind ≠ .text) : Laid deep src (leafOf src kind a b) :=
  .leaf fun htext => absurd htext h

theorem markup {nodes : List Node} (h : kind.isCommand = false) (hnodes : Each (Laid deep src) nodes) :
    Laid deep src (.markup kind nodes) :=
  .branch h hnodes

theorem bracketed {left inside right : MarkupKind} {s : Span} (hkind : kind.isCommand = false) (hleft : left ≠ .text)
    (hinside : inside ≠ .text) (hright : right ≠ .text) :
    Laid deep src (Head.bracketed src kind left inside right s) :=
  .markup hkind (((Each.optional (.single (.leafOf hinside))).append (.single (.leafOf hright))).cons (.leafOf hleft))

theorem head (head : Head) : Each (Laid deep src) (head.nodes src) := by
  refine Each.append (Each.cons (.leafOf (by decide)) ?_) ?_
  · split
    · exact .single (.leafOf (by decide))
    · exact .single (.bracketed rfl (by decide) (by decide) (by decide))
    · exact .nil
  · split
    · exact .single (.bracketed rfl (by decide) (by decide) (by decide))
    · exact .nil

theorem verbatim (opening closing : Nat) : Laid deep src (verbatimNode src opening closing) :=
  .markup rfl (((Each.optional (.single (.leafOf (by decide)))).append (.single (.leafOf (by decide)))).cons
    (.leafOf (by decide)))

theorem gapLeaves (start place : Nat) (cs : List Char) : Each (Laid deep src) (gapLeaves src start place cs) := by
  have hspace : ∀ a b, Each (Laid deep src) (if a < b then [Tree.leafOf src .space a b] else []) := fun a b =>
    .optional (.single (.leafOf (by decide)))
  induction cs generalizing start place with
  | nil => exact hspace start place
  | cons c cs ih =>
      unfold Markup.gapLeaves
      split
      · exact (hspace start place).append ((ih _ _).cons (.leafOf (by decide)))
      · exact ih _ _

theorem gap (start stop : Nat) : Each (Laid deep src) (gap src start stop) :=
  .optional (gapLeaves start start _)

theorem fill {nodes : List Node} (cursor stop : Nat) (h : Each (Laid deep src) nodes) :
    Each (Laid deep src) (fill src cursor stop nodes) := by
  induction nodes generalizing cursor with
  | nil => exact gap cursor stop
  | cons n nodes ih => exact (gap cursor n.start).append ((ih _ h.tail).cons (h n List.mem_cons_self))

/-- A branch with its gaps filled. -/
theorem filled {nodes : List Node} {start stop : Nat} (h : kind.isCommand = false)
    (hnodes : Each (Laid deep src) nodes) : Laid deep src (filled src kind start stop nodes) :=
  .markup h (fill _ _ hnodes)

theorem branchAt {place : Nat} {nodes : List Node} (h : kind.isCommand = false) (hnodes : Each (Laid deep src) nodes) :
    Laid deep src (.branchAt (.markup kind) place nodes) := by
  cases nodes with
  | nil => exact .branch h hnodes
  | cons node nodes => exact .branch h hnodes

/-- Leaves on several lines. -/
theorem leaves (h : kind ≠ .text) (lines : List Span) (first last : Span → Nat) :
    Each (Laid deep src) (lines.map fun l => Tree.leafOf src kind (first l) (last l)) := by
  intro n hn
  obtain ⟨l, _, rfl⟩ := List.mem_map.mp hn
  exact .leafOf h

theorem bodyLeaf (h : kind ≠ .text) (body : List Span) : Each (Laid deep src) (bodyLeaf src kind body) := by
  unfold Markup.bodyLeaf
  split
  · exact .single (.leafOf h)
  · exact .nil

end Laid

/-! ## Rules -/

/-- What is relied on while blocks are read: inline content is read as regions are, and the blocks inside a block are
laid out. -/
structure BlockEnv.Lays (deep : Prop) (env : BlockEnv) : Prop where
  inline : ∃ levels, env.inline = inlineNodes env.source levels
  nested : ∀ lines, Sheet env.source lines → (env.nested lines).Calm deep →
    Each (Laid deep env.source) (env.nested lines).value

section Rules

variable {env : BlockEnv} {result : Limited (Node × List Span)}

theorem commentBlock_laid (h : commentBlock env line later = some result) : Laid deep env.source result.value.1 := by
  unfold commentBlock at h
  dsimp only at h
  split at h
  · obtain rfl := Option.some.inj h
    exact .filled rfl (.leaves (by decide) _ _ _)
  · exact absurd h (by simp)

theorem scriptBlock_laid (h : scriptBlock env line later = some result) : Laid deep env.source result.value.1 := by
  unfold scriptBlock at h
  dsimp only at h
  split at h
  · exact absurd h (by simp)
  split at h
  · obtain rfl := Option.some.inj h
    exact .filled rfl (((Laid.bodyLeaf (by decide) _).cons (.leafOf (by decide))).append (.leaves (by decide) _ _ _))
  · obtain rfl := Option.some.inj h
    exact .filled rfl ((Each.optional (.single (.leafOf (by decide)))).cons (.leafOf (by decide)))

theorem attributeBlock_laid (h : attributeBlock env line later = some result) :
    Laid deep env.source result.value.1 := by
  obtain ⟨width, _, h⟩ := Option.bind_eq_some_iff.mp h
  dsimp only at h
  have hhead : ∀ start, Each (Laid deep env.source) (attributeHead env.source start width) := fun _ =>
    ((Each.nil.cons (.leafOf (by decide))).cons (.leafOf (by decide))).cons (.leafOf (by decide))
  split at h
  · obtain rfl := Option.some.inj h
    refine .filled rfl ((hhead _).append ?_)
    split
    · exact .single (.leafOf (by decide))
    · exact .nil
  · obtain rfl := Option.some.inj h
    exact .filled rfl ((hhead _).append (.single (.leafOf (by decide))))

theorem codeBlock_laid (h : codeBlock env line later = some result) : Laid deep env.source result.value.1 := by
  obtain ⟨⟨mark, width⟩, _, h⟩ := Option.bind_eq_some_iff.mp h
  obtain rfl := Option.some.inj h
  refine .filled rfl ?_
  exact (((Each.optional (.single (.leafOf (by decide)))).cons (.leafOf (by decide))).append
    (.bodyLeaf (by decide) _)).append (.leaves (by decide) _ _ _)

variable (he : env.Lays deep)

include he

/-- A node that holds inline content. -/
theorem BlockEnv.Lays.holding (front back : List Node) (hkind : kind.isCommand = false)
    (hsheet : Sheet env.source lines) (hne : lines ≠ []) (hcalm : (env.inline lines (modeOf kind)).Calm deep)
    (hparts : Each (Laid deep env.source) (front ++ back)) :
    Laid deep env.source (.markup kind (front ++ (env.inline lines (modeOf kind)).value ++ back)) := by
  obtain ⟨levels, hinline⟩ := he.inline
  rw [hinline] at hcalm ⊢
  exact .region hkind (hsheet.fair hne) hcalm hparts

/-- A node that holds nothing else. -/
theorem BlockEnv.Lays.only (kind : MarkupKind) (hkind : kind.isCommand = false)
    (hsheet : Sheet env.source lines) (hne : lines ≠ []) (hcalm : (env.inline lines (modeOf kind)).Calm deep) :
    Laid deep env.source (.markup kind (env.inline lines (modeOf kind)).value) := by
  have hnode := he.holding [] [] hkind hsheet hne hcalm .nil
  rwa [List.nil_append, List.append_nil] at hnode

/-- A node with other nodes before its inline content, the gaps between them filled. -/
theorem BlockEnv.Lays.behind (kind : MarkupKind) {front : Node} {content : Span} {start stop : Nat}
    (hkind : kind.isCommand = false) (hlt : content.start < content.stop) (hcontent : Sheet env.source [content])
    (hcalm : (env.inline [content] (modeOf kind)).Calm deep) (hfront : Laid deep env.source front)
    (hbehind : max start front.stop ≤ content.start) :
    Laid deep env.source (filled env.source kind start stop (front :: (env.inline [content] (modeOf kind)).value)) := by
  have hrun : Run env.source.Holds content.start content.stop (env.inline [content] (modeOf kind)).value := by
    obtain ⟨levels, hinline⟩ := he.inline
    rw [hinline]
    exact inlineNodes_run levels (.single (Nat.le_of_lt hlt)) (hcontent.bounds (List.mem_singleton_self _)).2 _
  unfold filled
  rw [fill, fill_run_eq hrun (hrun.ne_nil hlt) hbehind]
  have hnode := he.holding
    (gap env.source start front.start ++ front :: gap env.source (max start front.stop) content.start)
    (gap env.source content.stop stop) hkind hcontent (List.cons_ne_nil _ _) hcalm
    (((Laid.gap _ _).append ((Laid.gap _ _).cons hfront)).append (.gap _ _))
  simpa only [List.append_assoc, List.cons_append] using hnode

variable (hsheet : Sheet env.source (line :: later))

include hsheet

theorem componentLine_laid {start : Nat} (hstart : line.start ≤ start) (hle : start ≤ line.stop)
    (hclear : Clear env.source start) (hcalm : (componentLine env start line.stop).Calm deep) :
    Each (Laid deep env.source) (componentLine env start line.stop).value := by
  have hcontent := hsheet.trimmed List.mem_cons_self hstart hle (Nat.le_refl _) hclear
  unfold componentLine at hcalm ⊢
  dsimp only at hcalm ⊢
  split
  · rename_i hsome
    rw [if_pos hsome] at hcalm
    exact .single (he.only _ rfl (hcontent hsome) (List.cons_ne_nil _ _) hcalm.of_bind.1)
  · exact .nil

theorem componentBody_laid (hcalm : (componentBody env line later).Calm deep) :
    Each (Laid deep env.source) (componentBody env line later).value.1 := by
  unfold componentBody at hcalm ⊢
  dsimp only at hcalm ⊢
  rcases htaken : takeIndented env.source (indentOf env.source line + bodyIndent) later with ⟨taken, rest⟩
  rw [htaken] at hcalm
  dsimp only at hcalm ⊢
  obtain ⟨rfl, _⟩ := takeDeeper_spec htaken
  have hinner : Sheet env.source taken :=
    (show Sheet env.source ([line] ++ (taken ++ rest)) from hsheet).right.left
  cases hlast : taken.getLast? with
  | none => exact .nil
  | some last =>
      rw [hlast] at hcalm
      have hnodes := he.nested _ (hinner.strip (indentOf env.source line + bodyIndent)) hcalm.of_bind.1
      dsimp only
      rw [value_bind]
      split
      · exact .nil
      · exact .single (.filled rfl hnodes)

theorem componentBlock_laid (h : componentBlock env line later = some result) (hcalm : result.Calm deep) :
    Laid deep env.source result.value.1 := by
  obtain ⟨_, hsize⟩ := hsheet.bounds List.mem_cons_self
  unfold componentBlock at h
  dsimp only at h
  split at h
  · exact absurd h (by simp)
  obtain ⟨⟨head, form⟩, hheader, h⟩ := Option.bind_eq_some_iff.mp h
  have hhead : Each (Laid deep env.source) (head.nodes env.source) := .head head
  obtain ⟨hstart, hstop, _, hwithin⟩ := componentHeader?_spec hheader hsize
  dsimp only at h
  split at h
  · obtain ⟨rest, _, h⟩ := Option.bind_eq_some_iff.mp h
    obtain rfl := Option.some.inj h
    exact .filled rfl (hhead.append (.single (.verbatim _ _)))
  · obtain ⟨rest, _, h⟩ := Option.bind_eq_some_iff.mp h
    obtain rfl := Option.some.inj h
    refine .filled rfl (hhead.append (.append (.cons (.leafOf (by decide)) ?_) (.single (.leafOf (by decide)))))
    exact .optional (.single (.leafOf (by decide)))
  · rename_i colon
    obtain rfl := Option.some.inj h
    obtain ⟨hline, hbody⟩ := hcalm.of_bind
    refine .filled rfl (hhead.append ?_)
    have hcolon := componentHeader?_colon hheader
    have hclear : Clear env.source (colon + 1) := .of_char hcolon (by decide)
    have hwithin : colon = head.stop ∧ colon + 1 ≤ line.stop := hwithin
    have hindent : line.start ≤ contentStart env.source line := Nat.le_add_right _ _
    exact ((componentLine_laid he hsheet (by omega) hwithin.2 hclear hline).cons (.leafOf (by decide))).append
      (componentBody_laid he hsheet hbody.of_bind.1)
  · obtain rfl := Option.some.inj h
    exact .filled rfl (hhead.append .nil)

theorem mathBlock_laid (h : mathBlock env line later = some result) (hcalm : result.Calm deep) :
    Laid deep env.source result.value.1 := by
  unfold mathBlock at h
  dsimp only at h
  split at h
  · exact absurd h (by simp)
  rcases hfence : splitFence (fun l => isMathFence (unindented env.source l)) later with ⟨body, close, rest⟩
  rw [hfence] at h
  obtain rfl := Option.some.inj h
  have hbody : Sheet env.source body := by
    rw [splitFence_append hfence] at hsheet
    exact (show Sheet env.source ([line] ++ ((body ++ close.toList) ++ rest)) from hsheet).right.left.left
  have hblock : ∀ content, Each (Laid deep env.source) content → Laid deep env.source (enclosing env.source .mathBlock
      (contentStart env.source line) (leafOf env.source .mathDelim (contentStart env.source line)
        (contentStart env.source line + 2) :: content ++ close.toList.map fun l =>
          leafOf env.source .mathDelim (contentStart env.source l) (contentStart env.source l + 2))) :=
    fun content hcontent => .filled rfl ((hcontent.cons (.leafOf (by decide))).append (.leaves (by decide) _ _ _))
  dsimp only at hcalm ⊢
  split
  · exact hblock [] .nil
  · rename_i hsome
    rw [if_neg hsome] at hcalm
    have hne : body ≠ [] := fun hnil => hsome (by rw [hnil]; rfl)
    rw [value_bind]
    refine hblock _ ?_
    split
    · exact .nil
    · exact .single (he.only .mathContent rfl hbody hne hcalm.of_bind.1)

theorem headingBlock_laid (h : headingBlock env line later = some result) (hcalm : result.Calm deep) :
    Laid deep env.source result.value.1 := by
  obtain ⟨hle, hsize⟩ := hsheet.bounds List.mem_cons_self
  obtain ⟨hindent, hend⟩ := contentStart_bounds hle hsize
  obtain ⟨level, hlevel, h⟩ := Option.bind_eq_some_iff.mp h
  obtain rfl := Option.some.inj h
  have hwidth := headingLevel?_bound hlevel
  rw [length_unindented hsize] at hwidth
  have hmark : contentStart env.source line + level ≤ line.stop := by omega
  have hclear : Clear env.source (contentStart env.source line + level) := by
    refine (hsheet.content_clear List.mem_cons_self).run (f := (· == '#')) (by decide)
      (?_ : _ ≤ _ + runLength _ (env.source.slice _ line.stop)) (Nat.le_add_right _ _)
    unfold headingLevel? at hlevel
    dsimp only at hlevel
    split at hlevel
    · rw [← Option.some.inj hlevel, ← unindented_eq]
    · exact absurd hlevel (by simp)
  have hcontent := hsheet.trimmed List.mem_cons_self (Nat.le_trans hindent (Nat.le_add_right _ level)) hmark
    (Nat.le_refl _) hclear
  have hbounds := trimmed_bounds env.source hmark hsize
  have hmarker : Laid deep env.source (leafOf env.source .headingMarker (contentStart env.source line)
      (contentStart env.source line + level)) := .leafOf (by decide)
  split at hcalm
  · rename_i hsome
    rw [if_pos hsome]
    refine he.behind .heading rfl hsome (hcontent hsome) hcalm.of_bind.1 hmarker ?_
    exact Nat.max_le.mpr ⟨Nat.le_trans (Nat.le_add_right _ level) hbounds.1, hbounds.1⟩
  · rename_i hnone
    rw [if_neg hnone]
    exact .filled rfl (.single hmarker)

theorem quoteBlock_laid (h : quoteBlock env line later = some result) (hcalm : result.Calm deep) :
    Laid deep env.source result.value.1 := by
  unfold quoteBlock at h
  dsimp only at h
  split at h
  · exact absurd h (by simp)
  obtain rfl := Option.some.inj h
  have hquoted : Sheet env.source ((line :: later).takeWhile fun l => (unindented env.source l).head? == some '>') := by
    rw [← List.takeWhile_append_dropWhile (p := fun l => (unindented env.source l).head? == some '>')
      (l := line :: later)] at hsheet
    exact hsheet.left
  refine .filled rfl (he.nested _ (hquoted.unquote fun l hl => ?_) hcalm.of_bind.1)
  exact eq_of_beq (List.mem_takeWhile_imp (p := fun l => (unindented env.source l).head? == some '>') hl)

theorem listItem_laid {marker : ListMarker} (hmarker : ListMarker.read? (unindented env.source line) = some marker)
    (hcalm : (listItem env line marker later).Calm deep) :
    Laid deep env.source (listItem env line marker later).value.1 := by
  obtain ⟨hle, hsize⟩ := hsheet.bounds List.mem_cons_self
  obtain ⟨hindent, hend⟩ := contentStart_bounds hle hsize
  obtain ⟨hpos, hwidth⟩ := ListMarker.read?_bound hmarker
  rw [length_unindented hsize] at hwidth
  have hclear : Clear env.source (contentStart env.source line + marker.width) := by
    obtain ⟨c, hc, hne⟩ := ListMarker.read?_last hmarker
    rw [unindented_eq] at hc
    have hchar := (Source.of_getElem?_slice hc).2
    rw [← Nat.add_sub_assoc hpos] at hchar
    have hclear := Clear.of_char hchar hne
    rwa [Nat.sub_add_cancel (Nat.le_trans hpos (Nat.le_add_left _ _))] at hclear
  unfold listItem at hcalm ⊢
  dsimp only at hcalm ⊢
  generalize hafter : contentStart env.source line + marker.width = after at hcalm hclear ⊢
  generalize hrun : runLength isBlank (env.source.slice after line.stop) = run at hcalm ⊢
  generalize hblanks : (if (decide (4 < run) || after + run == line.stop) = true then min run 1 else run) = blanks
    at hcalm ⊢
  generalize indentOf env.source line + marker.width + max blanks 1 = column at hcalm ⊢
  have hfew : blanks ≤ run := by
    rw [← hblanks]
    split
    · exact Nat.min_le_left _ _
    · exact Nat.le_refl _
  have hcontent := item_clear (min (after + blanks) line.stop) line.stop hclear (by omega)
    fun p hfrom hto c hc => by
      have hrunStop : p < after + runLength isBlank (env.source.slice after line.stop) := by omega
      exact Source.of_runLength hfrom hrunStop hc
  obtain ⟨hfront, hstop⟩ := itemContent_bounds env.source (Nat.min_le_right (after + blanks) line.stop)
  have hblocks := he.nested _ (hsheet.item (Nat.le_trans (by omega) hfront) hstop hcontent) hcalm.of_bind.1
  rw [value_bind]
  exact .filled rfl (((Each.optional (.single (.leafOf (by decide)))).cons (.leafOf (by decide))).append hblocks)

omit he hsheet in
/-- The lines behind an item are the last ones. -/
theorem listItem_rest (env : BlockEnv) (line : Span) (marker : ListMarker) (later : List Span) :
    (listItem env line marker later).value.2 <:+ later :=
  (itemLines_taken env.source _ true later).imp fun _ h => h.1.symm

omit hsheet in
theorem listItems_laid (indent : Nat) (first : ListMarker) (fuel : Nat) {line : Span} {later : List Span}
    {marker : ListMarker} (hsheet : Sheet env.source (line :: later))
    (hmarker : ListMarker.read? (unindented env.source line) = some marker)
    (hcalm : (listItems env indent first fuel line marker later).Calm deep) :
    Each (Laid deep env.source) (listItems env indent first fuel line marker later).value.1 := by
  induction fuel generalizing line later marker with
  | zero => exact .nil
  | succ fuel ih =>
      have hleft := listItem_rest env line marker later
      unfold listItems at hcalm ⊢
      obtain ⟨hitemCalm, hothers⟩ := hcalm.of_bind
      have hitem := listItem_laid he hsheet hmarker hitemCalm
      rw [value_bind]
      generalize (listItem env line marker later).value = result at hleft hitem hothers ⊢
      obtain ⟨item, rest⟩ := result
      dsimp only at hleft hitem hothers ⊢
      cases hdrop : rest.dropWhile (isBlankLine env.source) with
      | nil => exact .single hitem
      | cons next lines =>
          rw [hdrop] at hothers
          dsimp only at hothers ⊢
          cases hother : ListMarker.read? (unindented env.source next) with
          | none => exact .single hitem
          | some marker' =>
              rw [hother] at hothers
              dsimp only at hothers ⊢
              split
              · rename_i hcontinues
                rw [if_pos hcontinues] at hothers
                have hnext : next :: lines <:+ line :: later :=
                  (hdrop ▸ List.dropWhile_suffix _).trans (hleft.trans (List.suffix_cons line later))
                exact (ih (hsheet.suffix hnext) hother hothers.of_bind.1).cons hitem
              · exact .single hitem

theorem listBlock_laid (h : listBlock env line later = some result) (hcalm : result.Calm deep) :
    Laid deep env.source result.value.1 := by
  obtain ⟨marker, hmarker, h⟩ := Option.bind_eq_some_iff.mp h
  obtain rfl := Option.some.inj h
  have hkind : marker.listKind.isCommand = false := by
    unfold ListMarker.listKind
    split <;> rfl
  exact .filled hkind (listItems_laid he _ _ _ hsheet hmarker hcalm.of_bind.1)

theorem tableCell_laid {cell : Span} (hstart : line.start ≤ cell.start) (hle : cell.start ≤ cell.stop)
    (hstop : cell.stop ≤ line.stop) (hclear : Clear env.source cell.start) (hcalm : (tableCell env cell).Calm deep) :
    Laid deep env.source (tableCell env cell).value := by
  have hcontent := hsheet.trimmed List.mem_cons_self hstart hle hstop hclear
  unfold tableCell at hcalm ⊢
  dsimp only at hcalm ⊢
  split
  · rename_i hsome
    rw [if_pos hsome] at hcalm
    exact he.only _ rfl (hcontent hsome) (List.cons_ne_nil _ _) hcalm.of_bind.1
  · exact .branch rfl fun _ hn => absurd hn List.not_mem_nil

theorem tableCells_laid {cells : List Span} (hcells : ∀ cell ∈ cells, line.start ≤ cell.start ∧ cell.start ≤ cell.stop ∧
    cell.stop ≤ line.stop ∧ Clear env.source cell.start) (hcalm : (tableCells env cells).Calm deep) :
    Each (Laid deep env.source) (tableCells env cells).value := by
  induction cells with
  | nil => exact .nil
  | cons cell cells ih =>
      obtain ⟨hfirst, hothers⟩ := hcalm.of_bind
      obtain ⟨hstart, hle, hstop, hclear⟩ := hcells cell List.mem_cons_self
      exact (ih (fun c hc => hcells c (List.mem_cons_of_mem _ hc)) hothers.of_bind.1).cons
        (tableCell_laid he hsheet hstart hle hstop hclear hfirst)

theorem tableRow_laid (hkind : kind.isCommand = false) (hcalm : (tableRow env kind line).Calm deep) :
    Laid deep env.source (tableRow env kind line).value := by
  obtain ⟨hle, hsize⟩ := hsheet.bounds List.mem_cons_self
  have hcells := (cellSpans_bounds hle hsize).2
  have hsub := cellSpans_sublist env.source line
  unfold tableRow at hcalm ⊢
  dsimp only at hcalm ⊢
  rw [value_bind]
  have hnodes := tableCells_laid he hsheet (fun cell hcell => by
    obtain ⟨hstart, hcellLe, hstop, -⟩ := hcells cell hcell
    refine ⟨Nat.le_trans (Nat.le_add_right _ _) hstart, hcellLe, hstop, ?_⟩
    exact cell_clear (hsheet.content_clear List.mem_cons_self) (hsub.subset hcell)) hcalm.of_bind.1
  refine .filled hkind fun n hn => ?_
  rcases List.mem_append.mp (List.mem_mergeSort.mp hn) with hn | hn
  · obtain ⟨p, _, rfl⟩ := List.mem_map.mp hn
    exact .leafOf (by decide)
  · exact hnodes n hn

omit hsheet in
theorem tableRows_laid {lines : List Span} (hsheet : Sheet env.source lines) (hcalm : (tableRows env lines).Calm deep) :
    Each (Laid deep env.source) (tableRows env lines).value := by
  induction lines with
  | nil => exact .nil
  | cons line lines ih =>
      obtain ⟨hfirst, hothers⟩ := hcalm.of_bind
      exact (ih (hsheet.suffix (List.suffix_cons line lines)) hothers.of_bind.1).cons
        (tableRow_laid he hsheet rfl hfirst)

theorem tableBlock_laid (h : tableBlock env line later = some result) (hcalm : result.Calm deep) :
    Laid deep env.source result.value.1 := by
  unfold tableBlock at h
  dsimp only at h
  cases later with
  | nil => exact absurd h (by simp)
  | cons delimiter rest =>
      dsimp only at h
      split at h
      · exact absurd h (by simp)
      obtain ⟨count, _, h⟩ := Option.bind_eq_some_iff.mp h
      split at h
      · exact absurd h (by simp)
      obtain rfl := Option.some.inj h
      obtain ⟨hheader, hothers⟩ := hcalm.of_bind
      have hbody : Sheet env.source (rest.takeWhile fun l => !isBlankLine env.source l &&
          (unindented env.source l).contains '|' && !startsBlock env.source l) := by
        rw [← List.takeWhile_append_dropWhile (p := fun l => !isBlankLine env.source l &&
          (unindented env.source l).contains '|' && !startsBlock env.source l) (l := rest)] at hsheet
        exact (show Sheet env.source ([line, delimiter] ++ (_ ++ _)) from hsheet).right.left
      exact .filled rfl (((tableRows_laid he hbody hothers.of_bind.1).cons (.leafOf (by decide))).cons
        (tableRow_laid he hsheet rfl hheader))

theorem paragraph_laid (hcalm : (paragraph env line later).Calm deep) :
    Laid deep env.source (paragraph env line later).value.1 := by
  unfold paragraph at hcalm ⊢
  dsimp only at hcalm ⊢
  rw [value_bind]
  have hbody : Sheet env.source
      (line :: later.takeWhile fun l => !isBlankLine env.source l && !startsBlock env.source l) := by
    rw [← List.takeWhile_append_dropWhile (p := fun l => !isBlankLine env.source l && !startsBlock env.source l)
      (l := later)] at hsheet
    exact (show Sheet env.source ((line :: _) ++ _) from hsheet).left
  exact he.only .paragraph rfl hbody.content (List.cons_ne_nil _ _) hcalm.of_bind.1

/-- **Every block is laid out.** -/
theorem readBlock_laid (hcalm : (readBlock env line later).Calm deep) :
    Laid deep env.source (readBlock env line later).value.1 := by
  have hrules : ∀ rule ∈ blockRules, ∀ result, rule env line later = some result → result.Calm deep →
      Laid deep env.source result.value.1 := by
    intro rule hrule result h hcalm
    simp only [blockRules, List.mem_cons, List.not_mem_nil, or_false] at hrule
    rcases hrule with rfl | rfl | rfl | rfl | rfl | rfl | rfl | rfl | rfl | rfl
    · exact commentBlock_laid h
    · exact scriptBlock_laid h
    · exact attributeBlock_laid h
    · exact componentBlock_laid he hsheet h hcalm
    · exact mathBlock_laid he hsheet h hcalm
    · exact codeBlock_laid h
    · exact headingBlock_laid he hsheet h hcalm
    · exact quoteBlock_laid he hsheet h hcalm
    · exact listBlock_laid he hsheet h hcalm
    · exact tableBlock_laid he hsheet h hcalm
  unfold readBlock at hcalm ⊢
  cases hfound : blockRules.findSome? fun rule => rule env line later with
  | none =>
      rw [hfound] at hcalm
      exact paragraph_laid he hsheet hcalm
  | some result =>
      rw [hfound] at hcalm
      obtain ⟨rule, hrule, h⟩ := List.exists_of_findSome?_eq_some hfound
      exact hrules rule hrule result h hcalm

end Rules

/-! ## Documents -/

/-- The blocks of a list of lines are laid out. -/
theorem readBlocks_laid {env : BlockEnv} (he : env.Lays deep) (hforms : env.Forms) (hsound : env.Sound) (fuel : Nat)
    (hsheet : Sheet env.source lines) (hcalm : (readBlocks env fuel lines).Calm deep) :
    Each (Laid deep env.source) (readBlocks env fuel lines).value := by
  induction fuel generalizing lines with
  | zero => exact .nil
  | succ fuel ih =>
      cases lines with
      | nil => exact .nil
      | cons line later =>
          have hlater := hsheet.suffix (List.suffix_cons line later)
          obtain ⟨lo, hlines⟩ := hsheet.ordered
          unfold readBlocks at hcalm ⊢
          split at hcalm
          · rename_i hblank
            rw [if_pos hblank]
            exact ih hlater hcalm
          · rename_i hsome
            rw [if_neg hsome]
            obtain ⟨hblock, hothers⟩ := hcalm.of_bind
            have hleft := (readBlock_form (Lines.tight hlines) hlines.2.2.lastStop_bounds.2 hsheet.page hforms hsound
              (Bool.eq_false_iff.mpr hsome)).rest
            exact (ih (hlater.suffix hleft) hothers.of_bind.1).cons (readBlock_laid he hsheet hblock)

/-- **The blocks of a list of lines are laid out**, however deep blocks may nest. -/
theorem blockNodes_laid (levels : Nat) (hsheet : Sheet src lines) (hcalm : (blockNodes src levels lines).Calm deep) :
    Each (Laid deep src) (blockNodes src levels lines).value := by
  induction levels generalizing lines with
  | zero => exact .optional (.single (.leaf fun _ => hcalm rfl))
  | succ levels ih =>
      have hs : BlockEnv.Sound
          { source := src, inline := inlineNodes src (levels - 1), nested := blockNodes src levels } :=
        ⟨fun mode hregion hto => inlineNodes_run (levels - 1) hregion hto mode, fun hlines hto =>
          blockNodes_spread levels hlines hto⟩
      have he : BlockEnv.Forms
          { source := src, inline := inlineNodes src (levels - 1), nested := blockNodes src levels } :=
        ⟨⟨levels - 1, rfl⟩, fun quoted _ _ _ hlines hto hpage => blockNodes_form levels quoted hlines hto hpage⟩
      exact readBlocks_laid ⟨⟨levels - 1, rfl⟩, fun _ => ih⟩ he hs lines.length hsheet hcalm

/-- **The tree of a document is laid out.** -/
theorem readDocument_laid (src : Source) (hcalm : (readDocument src src.whole).Calm deep) :
    Laid deep src (readDocument src src.whole).value := by
  have hregion : Region 0 src.size (lineSpans src src.whole) := lineSpans_region (Nat.zero_le _) (Nat.le_refl _)
  have hpage := lineSpans_page src True src.whole
  have hsheet : Sheet src (lineSpans src src.whole) := by
    have hlines := hregion.lines
    obtain ⟨first, later, hsplit, hfirst, -⟩ := hregion
    rw [hsplit] at hpage hlines ⊢
    exact .of_first hlines hpage (hfirst.symm ▸ Clear.zero src)
  exact .branchAt rfl (.fill _ _ (blockNodes_laid (maxDepth + 1) hsheet hcalm.of_bind.1))

end ComponentMarkup.Markup
