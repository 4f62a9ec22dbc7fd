import ComponentMarkup.Proofs.Markup.Heredity
import ComponentMarkup.Proofs.Text.LineBreaks

/-!
# Trees of documents

What a tree of the grammar of documents looks like, wherever it stands: leaves of white space hold white space only,
quotation marks stand in quotations, line breaks are what stands between two lines, a body has a closing brace unless
the text ends behind it, and the nodes that hold inline content hold what reading a region gave.

* `Formed` — such a tree, in a quotation or not;
* `formed_hereditary` — the rules for inline content hand that on;
* `inlineNodes_formed` — inline content is formed like that, however deep its regions are inside each other.
-/

namespace ComponentMarkup.Tree

/-- What a node is and where it stands. -/
def Node.tag (n : Node) : Kind × Text.Span :=
  (n.kind, n.span)

end ComponentMarkup.Tree

namespace ComponentMarkup.Markup

open ComponentMarkup.Text ComponentMarkup.Tree

/-- Which rules read the inline content that a kind of node holds. -/
def modeOf : MarkupKind → Mode
  | .mathContent => .template
  | _ => .full

/-- What a region is read as: nothing if it is empty, a single text if regions are too deep inside each other, and the
nodes of its content otherwise. -/
def IsRegion (src : Source) (mode : Mode) (tags : List (Kind × Span)) : Prop :=
  tags = [] ∨ (∃ s, tags = [(.markup .text, s)]) ∨ ∃ levels segments lo hi, Region lo hi segments ∧ hi ≤ src.size ∧
    tags = (inlineNodes src levels segments mode).value.map Node.tag

/-- What a region is read as, with nothing around it but the mark of a heading and white space. -/
def HoldRegion (src : Source) (mode : Mode) (tags : List (Kind × Span)) : Prop :=
  ∃ front region back, tags = front ++ region ++ back ∧ IsRegion src mode region ∧
    ∀ tag ∈ front ++ back, tag.1 = .markup .headingMarker ∨ tag.1 = .markup .space

theorem IsRegion.hold {src : Source} {mode : Mode} {tags : List (Kind × Span)} (h : IsRegion src mode tags) :
    HoldRegion src mode tags :=
  ⟨[], tags, [], (List.append_nil tags).symm, h, fun _ htag => absurd htag List.not_mem_nil⟩

/-- A tree of the grammar of documents, in a quotation or not. -/
inductive Formed (src : Source) : Prop → Node → Prop where
  | leaf {quoted : Prop} {kind : Kind} {text : String} {span : Span}
      (ordinary : ∀ k, kind = .markup k → k.isOrdinary = true) : Formed src quoted (.leaf kind text span)
  | space {quoted : Prop} {text : String} {span : Span} (white : isAllWhite text.toList = true) :
      Formed src quoted (.leaf (.markup .space) text span)
  | quoteMarker {quoted : Prop} {span : Span} (inside : quoted) :
      Formed src quoted (.leaf (.markup .quoteMarker) ">" span)
  | newline {quoted : Prop} {text : String} {span : Span} (ends : IsLineBreak quoted text.toList) :
      Formed src quoted (.leaf (.markup .newline) text span)
  | fault {quoted : Prop} {message : String} {hints : List String} {text : String} {span : Span} :
      Formed src quoted (.fault message hints text span)
  | branch {quoted : Prop} {kind : Kind} {span : Span} {host : Option Choice} {count : Nat} {faulty : Bool}
      {children : List Node}
      (plain : ∀ k, kind = .markup k → k.isTrivia = false)
      (closed : kind = .markup .contentBlock →
        (∃ child ∈ children, child.isMarkup .rightBrace = true) ∨ isAllWhite (src.after span.stop) = true)
      (content : ∀ k, kind = .markup k → k.holdsInline = true → HoldRegion src (modeOf k) (children.map Node.tag))
      (parts : ∀ child ∈ children, Formed src (quoted ∨ kind = .markup .blockquote) child) :
      Formed src quoted (.inner kind span host count faulty children)

variable {src : Source} {quoted : Prop} {kind : MarkupKind} {nodes : List Node} {a b : Nat}

/-- What is formed for no quotation is formed for one. -/
theorem Formed.mono {quoted' : Prop} {n : Node} (h : Formed src quoted n) (himp : quoted → quoted') :
    Formed src quoted' n := by
  induction h generalizing quoted' with
  | leaf ordinary => exact .leaf ordinary
  | space white => exact .space white
  | quoteMarker inside => exact .quoteMarker (himp inside)
  | newline ends => exact .newline (ends.mono himp)
  | fault => exact .fault
  | branch plain closed content _ ih =>
      exact .branch plain closed content fun child hchild => ih child hchild (Or.imp_left himp)

namespace Formed

theorem leafOf (h : kind.isOrdinary = true) : Formed src quoted (leafOf src kind a b) := by
  refine .leaf fun k hk => ?_
  obtain rfl := Kind.markup.inj hk
  exact h

/-- A branch of the grammar of documents that is no body of a command. -/
theorem inner {span : Span} {host : Option Choice} {count : Nat} {faulty : Bool}
    (hkind : kind.isTrivia = false ∧ kind ≠ .contentBlock)
    (hregion : kind.holdsInline = true → HoldRegion src (modeOf kind) (nodes.map Node.tag))
    (hnodes : Each (Formed src (quoted ∨ kind = .blockquote)) nodes) :
    Formed src quoted (.inner (.markup kind) span host count faulty nodes) := by
  refine .branch (fun k hk => ?_) (fun heq => absurd (Kind.markup.inj heq) hkind.2) (fun k hk hk' => ?_)
    fun child hchild => (hnodes child hchild).mono (Or.imp_right (congrArg Kind.markup))
  · obtain rfl := Kind.markup.inj hk
    exact hkind.1
  · obtain rfl := Kind.markup.inj hk
    exact hregion hk'

/-- An ordinary kind is no trivia, has no braces and holds no inline content. -/
theorem ordinary (h : kind.isOrdinary = true) :
    (kind.isTrivia = false ∧ kind ≠ .contentBlock) ∧ kind.holdsInline = false := by
  simp only [MarkupKind.isOrdinary, Bool.and_eq_true, Bool.not_eq_true', bne_iff_ne] at h
  exact ⟨⟨h.1.1, h.2⟩, h.1.2⟩

theorem markup (h : kind.isOrdinary = true) (hnodes : Each (Formed src quoted) nodes) :
    Formed src quoted (.markup kind nodes) :=
  .inner (ordinary h).1 (fun hholds => absurd ((ordinary h).2.symm.trans hholds) Bool.false_ne_true)
    fun child hchild => (hnodes child hchild).mono .inl

/-- A branch that holds inline content. -/
theorem holding (h : kind.isTrivia = false ∧ kind ≠ .contentBlock) (hnodes : Each (Formed src quoted) nodes)
    (hregion : HoldRegion src (modeOf kind) (nodes.map Node.tag)) : Formed src quoted (.markup kind nodes) :=
  .inner h (fun _ => hregion) fun child hchild => (hnodes child hchild).mono .inl

/-- Brackets around what stands for another grammar. -/
theorem bracketed {left inside right : MarkupKind} {s : Span} (hkind : kind.isOrdinary = true)
    (hleft : left.isOrdinary = true) (hinside : inside.isOrdinary = true) (hright : right.isOrdinary = true) :
    Formed src quoted (Head.bracketed src kind left inside right s) :=
  .markup hkind (((Each.optional (.single (.leafOf hinside))).append (.single (.leafOf hright))).cons (.leafOf hleft))

theorem head (head : Head) : Each (Formed src quoted) (head.nodes src) := by
  refine Each.append (Each.cons (.leafOf rfl) ?_) ?_
  · split
    · exact .single (.leafOf rfl)
    · exact .single (.bracketed rfl rfl rfl rfl)
    · exact .nil
  · split
    · exact .single (.bracketed rfl rfl rfl rfl)
    · exact .nil

theorem verbatim (opening closing : Nat) : Formed src quoted (verbatimNode src opening closing) :=
  .markup rfl (((Each.optional (.single (.leafOf rfl))).append (.single (.leafOf rfl))).cons (.leafOf rfl))

/-- A body with both of its braces. -/
theorem body {a b c d : Nat} (hnodes : Each (Formed src quoted) nodes) : Formed src quoted
    (.markup .contentBlock (Tree.leafOf src .leftBrace a b :: nodes ++ [Tree.leafOf src .rightBrace c d])) := by
  refine .branch (fun k hk => ?_) (fun _ => .inl ⟨_, List.mem_append_right _ (List.mem_singleton_self _), rfl⟩)
    (fun k hk hk' => ?_) fun child hchild =>
      ((hnodes.cons (.leafOf rfl)).append (.single (.leafOf rfl)) child hchild).mono .inl
  · obtain rfl := Kind.markup.inj hk
    rfl
  · obtain rfl := Kind.markup.inj hk
    exact absurd hk' Bool.false_ne_true

/-- A body that the end of the text closes. -/
theorem openBody {a b : Nat} (hnodes : Each (Formed src quoted) nodes)
    (hend : isAllWhite (src.after (Node.markup .contentBlock (Tree.leafOf src .leftBrace a b :: nodes)).stop) = true) :
    Formed src quoted (.markup .contentBlock (Tree.leafOf src .leftBrace a b :: nodes)) := by
  refine .branch (fun k hk => ?_) (fun _ => .inr hend) (fun k hk hk' => ?_) fun child hchild =>
    (hnodes.cons (.leafOf rfl) child hchild).mono .inl
  · obtain rfl := Kind.markup.inj hk
    rfl
  · obtain rfl := Kind.markup.inj hk
    exact absurd hk' Bool.false_ne_true

/-- A body that loses its braces leaves formed nodes. -/
theorem unbraced {n : Node} (hblock : n.isMarkup .contentBlock = true) (h : Formed src quoted n) :
    Each (Formed src quoted) (unbrace n) := by
  have hparts : ∀ child ∈ n.children, Formed src quoted child := by
    cases h with
    | @branch _ kind span host count faulty children _ _ _ parts =>
        obtain rfl : kind = .markup .contentBlock := beq_iff_eq.mp hblock
        exact fun child hchild => (parts child hchild).mono fun hor => hor.resolve_right nofun
    | _ => exact fun child hchild => absurd hchild List.not_mem_nil
  intro m hm
  obtain ⟨child, hchild, rfl⟩ := List.mem_map.mp hm
  split
  · rename_i hbrace
    -- a brace; only its kind is another one
    cases hparts child hchild with
    | fault => exact .fault
    | @branch _ kind _ _ _ _ _ _ _ _ parts =>
        refine .inner (by decide) (fun hholds => absurd hholds Bool.false_ne_true) fun c hc =>
          (parts c hc).mono fun hor => hor.imp_right ?_
        rintro rfl
        exact absurd hbrace Bool.false_ne_true
    | _ => exact .leaf fun k hk => by obtain rfl := Kind.markup.inj hk; rfl
  · exact hparts child hchild

end Formed

/-! ## Inline content -/

/-- Regions inside a region whose nodes are formed. -/
def NestedFormed (src : Source) (quoted : Prop) (nested : Span → Mode → Limited (List Node)) : Prop :=
  ∀ inner mode, inner.start ≤ inner.stop → inner.stop ≤ src.size →
    Each (Formed src quoted) (nested inner mode).value ∧ IsRegion src mode ((nested inner mode).value.map Node.tag)

/-- **The rules for inline content hand on that nodes are formed.** -/
theorem formed_hereditary {env : Env} (hnested : NestedFormed env.source quoted env.nested) :
    Hereditary env (fun inner => inner.start ≤ inner.stop ∧ inner.stop ≤ env.source.size)
      (Formed env.source quoted) where
  leaf plain := .leafOf (Bool.and_eq_true _ _ ▸ plain).1
  text := .leaf fun k hk => by obtain rfl := Kind.markup.inj hk; rfl
  space white := .space (by rwa [Source.text, String.toList_ofList])
  branch plain parts := .markup (Bool.and_eq_true _ _ ▸ plain).1 parts
  head := Formed.head
  verbatim := Formed.verbatim
  body := Formed.body
  unbraced := Formed.unbraced
  line within := .holding (by decide) (hnested _ _ within.1 within.2).1 (hnested _ _ within.1 within.2).2.hold
  formula within := .holding (by decide) (hnested _ _ within.1 within.2).1 (hnested _ _ within.1 within.2).2.hold

/-- Stretches are left behind one after the other. -/
theorem skip_suffix (place : Nat) (segments : List Span) : State.jumpAcross.skip place segments <:+ segments := by
  fun_induction State.jumpAcross.skip place segments with
  | case1 a b rest hstop ih => exact ih.trans (List.suffix_cons a _)
  | _ => exact List.suffix_refl _

section Region

variable {env : Env} {lo : Nat} {s : State}

theorem Advance.suffix {segment : Span} {s' : State} (h : Advance env lo segment s s') :
    s'.segments <:+ s.segments := by
  rcases h.within with ⟨_, hsame⟩ | ⟨_, hskip⟩
  · exact hsame.symm ▸ List.suffix_refl s.segments
  · rw [hskip]
    exact skip_suffix _ _

/-- What becomes of a verdict keeps the stretches ahead, or leaves some behind. -/
theorem Verdict.Sound.suffix (env : Env) (lo : Nat) (segment : Span) {v : Verdict} {plain noted : State} (brace : Bool)
    (hplain : plain.segments <:+ s.segments) (hnoted : noted.segments <:+ s.segments) :
    v.Sound env lo segment s → State.segments (match v with
      | .claimed s => if brace then s else s.shift .other
      | .declined => plain
      | .tooDeep => noted) <:+ s.segments := by
  intro hv
  cases v with
  | claimed s' =>
      dsimp only
      split
      · exact Advance.suffix hv
      · exact (hv.congr rfl rfl rfl : Advance env lo segment s (s'.shift .other)).suffix
  | declined => exact hplain
  | tooDeep => exact hnoted

/-- A step keeps the stretches ahead, or leaves some behind. -/
theorem step_suffix {segment : Span} {later : List Span} (he : env.Sound) (hs : s.Sound env lo)
    (hsegments : s.segments = segment :: later) : (step env s segment later).segments <:+ s.segments := by
  have hahead := hs.ahead
  rw [hsegments] at hahead
  unfold step
  split
  · unfold nextSegment
    rw [hsegments]
    split
    · exact List.nil_suffix
    · show State.segments (if _ then _ else _) <:+ _
      split
      · exact List.suffix_cons _ _
      · exact List.suffix_cons _ _
  rename_i hplace
  split
  · exact List.suffix_refl _
  dsimp only
  split
  · exact List.nil_suffix
  rename_i c cs hrest
  have ht : (Site.mk segment (env.source.slice s.place segment.stop)).Sound env s :=
    ⟨Nat.lt_of_not_le hplace, hahead.stop_le, rfl⟩
  have hsite : (Site.mk segment (env.source.slice s.place segment.stop)).Sound env (s.note (some s.place)) :=
    ⟨ht.lt, ht.stop_le, rfl⟩
  have hplain := (plainText_sound (c := c) he hs.stack ht).suffix
  have hnoted := (plainText_sound (s := s.note (some s.place)) (c := c) he hs.stack hsite).suffix
  refine Verdict.Sound.suffix env lo segment (c == '}' || c == '{') hplain hnoted ?_
  cases env.mode with
  | full => exact fullRule_sound he hs.stack ht hrest
  | template => exact templateRule_sound (c := c) he hs.stack ht

/-- Closing a command keeps what the parts cover. -/
theorem closeCommand_stack {hi : Nat} (hs : Stack env.source lo hi s.parts) :
    Stack env.source lo hi (closeCommand env s).parts := by
  have hclosed := closeCommands_stack 1 hs
  rwa [closeCommands_succ] at hclosed

/-- A body that is closed by the end of a region ends there. -/
theorem Stack.openBody_stop {hi : Nat} {above below : List Part} {d : Delimiter}
    (hs : Stack env.source lo hi s.parts) (hfound : lastBody? s.parts = some (above, d, below)) :
    (Node.markup .contentBlock (leafOf env.source .leftBrace d.span.start d.span.stop ::
      Markup.settle env.source above)).stop = hi := by
  obtain ⟨hd, _, habove⟩ := hs.found hfound
  have hbrace : Run env.source.Holds d.span.start d.span.stop
      [leafOf env.source .leftBrace d.span.start d.span.stop] := leafOf_run (Nat.le_of_lt hd.lt) hd.stop_le
  have hrun := markup_run .contentBlock (hbrace.append habove.settle) (List.cons_ne_nil _ _)
  exact hrun.of_cons.2.2.chain

end Region

/-- The nodes of a region are formed, if those of the regions inside it are. -/
theorem readInline_formed {nested : Span → Mode → Limited (List Node)} {lo hi : Nat} {segments : List Span}
    (hruns : NestedRuns src nested) (hnested : NestedFormed src quoted nested) (hregion : Region lo hi segments)
    (hhi : hi ≤ src.size) (hbreaks : Breaks src quoted segments) (mode : Mode) :
    Each (Formed src quoted) (readInline src nested segments mode).value := by
  unfold readInline
  dsimp only
  rw [hregion.last_stop]
  generalize henv : Env.mk src mode hi (isAllWhite (src.after hi)) nested = env
  obtain rfl : env.source = src := by rw [← henv]
  obtain rfl : env.stop = hi := by rw [← henv]
  have hend : env.atEnd = isAllWhite (env.source.after env.stop) := by rw [← henv]
  have he : env.Sound := ⟨hhi, by rw [← henv]; exact hruns⟩
  have hP : Hereditary env _ (Formed env.source quoted) := formed_hereditary (by rw [← henv]; exact hnested)
  have hsound : (State.start segments).Sound env lo := .start hregion
  have hread := readRegion_has (I := fun s => s.Sound env lo ∧ Breaks env.source quoted s.segments) hP (.start segments)
    ⟨hsound, hbreaks⟩ ?_ ?_ ?_ (regionSteps segments)
  · have hstack := readRegion_sound _ he hsound (Nat.le_of_lt (stepsLeft_start hregion.last_stop.symm))
    refine hP.settle (closeCommands_has (I := fun s => Stack env.source lo env.stop s.parts) hP hread hstack
      (fun _ hs => closeCommand_stack hs) ?_ _)
    intro s above d below hs hatEnd hfound habove
    refine .openBody habove ?_
    rw [hs.openBody_stop hfound, ← hend]
    exact hatEnd
  · rintro s segment later ⟨hs, hlines⟩ hsegments
    obtain ⟨gone, hgone⟩ := step_suffix he hs hsegments
    exact ⟨(step_sound he hs hsegments).1, (hgone ▸ hlines).right_of_append⟩
  · rintro s segment next later ⟨_, hlines⟩ hsegments
    rw [hsegments] at hlines
    refine .newline ?_
    rw [Source.text, String.toList_ofList]
    exact (List.isChain_cons_cons.mp hlines).1.2
  · rintro s segment later ⟨hs, _⟩ hsegments a b hab hb
    have hahead := hs.ahead
    rw [hsegments] at hahead
    exact ⟨hab, Nat.le_trans hb (Nat.le_trans hahead.stop_le hhi)⟩

/-- **Inline content is formed**, however deep regions may be inside each other. -/
theorem inlineNodes_formed (levels : Nat) {lo hi : Nat} {segments : List Span} (hregion : Region lo hi segments)
    (hhi : hi ≤ src.size) (hbreaks : Breaks src quoted segments) (mode : Mode) :
    Each (Formed src quoted) (inlineNodes src levels segments mode).value := by
  induction levels generalizing lo hi segments mode with
  | zero =>
      refine readInline_formed (fun inner _ hle hstop => leafOf_run hle hstop) ?_ hregion hhi hbreaks mode
      exact fun inner mode _ _ => ⟨.single (.leafOf rfl), .inr (.inl ⟨_, rfl⟩)⟩
  | succ levels ih =>
      refine readInline_formed (fun inner mode hle hstop => inlineNodes_run levels (Region.single hle) hstop mode) ?_
        hregion hhi hbreaks mode
      intro inner mode hle hstop
      exact ⟨ih (Region.single hle) hstop (.singleton _) mode,
        .inr (.inr ⟨levels, [inner], _, _, Region.single hle, hstop, rfl⟩)⟩

end ComponentMarkup.Markup
