import ComponentMarkup.Proofs.Document.Depth
import ComponentMarkup.Proofs.Render.PreludeComponents
import ComponentMarkup.Proofs.Render.SpokenMarkup

/-!
# Programs say what their documents say

A component has one form of contents, and renders it: contents in braces, a verbatim body, a body of several lines in
braces, or content on its line and an indented body.  An interpolation renders its contents in braces and nothing else, so
its verbatim body is lost.  With that exception, the string literals of a program hold what the leaves of its document
stand for.

* `componentContents_spoken`, `interpolation_spoken`, `reference_spoken` — commands;
* `inlineForm_spoken`, `blockForm_spoken`, `renderNode_repeats` — nodes are rendered to what they say;
* `renderDocument_spoken` — so are documents;
* `compile_prose` — the program of a document has this among its string literals, in order;
* `compile_prose_verbatim` — a program that lacks a verbatim body.
-/

namespace ComponentMarkup.Render

open ComponentMarkup.Text ComponentMarkup.Tree ComponentMarkup.Document ComponentMarkup.Program ComponentMarkup.Markup

variable {render : Renderer} {settings : Settings} {n m : Node} {ns : List Node} {kind : MarkupKind} {ss : List String}
  {c : Command}

/-! ## Contents of components -/

/-- Contents in braces say what their nodes say. -/
theorem contentBlock_spoken (h : HeardBelow render n) (hkind : n.kind = .markup .contentBlock) :
    Says n (elemsProse 0 (inlineElems render (blockContents n)).value) := by
  have hinline : ∀ m ∈ n.children, m.kind.isInline = true := by
    intro m hm
    have hkinds : ∀ k ∈ n.children.map Node.kind,
        k.isPhrase = true ∨ k = .markup .leftBrace ∨ k = .markup .rightBrace :=
      (h.settled.here.arranged.children hkind).resolve_left (List.ne_nil_of_mem hm)
    rcases hkinds _ (List.mem_map_of_mem hm) with hphrase | hbrace | hbrace
    · exact Kind.isInline_phrase hphrase
    · rw [hbrace]
      rfl
    · rw [hbrace]
      rfl
  refine says_children hkind rfl (without_spoken (fun m hm => h.child hm) hinline fun k hk => ?_)
  rcases List.mem_pair.mp hk with rfl | rfl
  · rfl
  · rfl

/-- A paragraph that stands alone is the only block besides attributes. -/
theorem soleParagraph?_spec {paragraph : Node} (h : soleParagraph? ns = some paragraph) :
    (ns.filter fun n => !n.isMarkup .attributeLine) = [paragraph] ∧ paragraph.kind = .markup .paragraph := by
  unfold soleParagraph? at h
  split at h
  · rename_i n hsole
    split at h
    · rename_i hkind
      obtain rfl := Option.some.inj h
      exact ⟨hsole, beq_iff_eq.mp hkind⟩
    · exact absurd h (Option.some_ne_none paragraph).symm
  · exact absurd h (Option.some_ne_none paragraph).symm

/-- The body of a component says what its blocks say. -/
theorem bodyContents_spoken (h : ∀ n ∈ ns, Heard render n) (hblock : ∀ n ∈ ns, n.kind.isBlock = true ∨ n.kind.isQuiet = true) :
    SayAll ns (elemsProse 0 (bodyContents render ns).value.2) := by
  unfold bodyContents
  cases hsole : soleParagraph? ns with
  | none =>
      have hall := sequence_spoken h hblock true
      show SayAll ns (elemsProse 0 [.spread (.array (nestParts (sequenceParts render true ns).value))])
      rwa [elemsProse_spread]
  | some paragraph =>
      obtain ⟨honly, hkind⟩ := soleParagraph?_spec hsole
      have hparagraph : Says paragraph (elemsProse 0 (inlineElems render paragraph.children).value) :=
        phrases_spoken (h paragraph (soleParagraph?_mem hsole)).below hkind rfl fun _ harranges => harranges
      have hkept : SayAll (ns.filter fun n => !n.isMarkup .attributeLine)
          (elemsProse 0 (inlineElems render paragraph.children).value) := by
        rw [honly]
        exact .single hparagraph
      dsimp only
      rw [Rendered.value_bind, Rendered.value_bind, Rendered.value_pure]
      refine .sift (fun m hm hdrop => ?_) hkept
      have hattribute : m.isMarkup .attributeLine = true := by simpa using hdrop
      exact mute_spoken (h m hm).settled (beq_iff_eq.mp hattribute) rfl

/-- A body of several lines in braces says what its document says. -/
theorem holeContents_spoken (h : HeardBelow render n) (hkind : n.kind = .markup .markupHole) :
    Says n (elemsProse 0 (holeContents render n).value.2) := by
  obtain ⟨root, hroot, hchildren⟩ := h.settled.here.hosts hkind
  have hmem : root ∈ n.children := hchildren ▸ List.mem_singleton_self root
  have hkinds : n.children.map Node.kind = [.markup .document] :=
    (h.settled.here.arranged.children hkind).resolve_left (List.ne_nil_of_mem hmem)
  have hdocument : root.kind = .markup .document := by
    rw [hchildren] at hkinds
    exact List.head_eq_of_cons_eq hkinds
  have hhosted : hostedSequence? n = some (significant root) := by
    rw [hostedSequence?, hroot, Option.bind_some, view?, hdocument]
    rfl
  have hheard := h.child hmem
  have hblock := blocks_kinds hheard.settled.here hdocument fun _ harranges => harranges
  refine says_children hkind rfl ?_
  rw [hchildren, holeContents, hhosted]
  refine .single (says_children hdocument rfl (significant_spoken hheard.settled (bodyContents_spoken ?_ ?_)))
  · exact fun m hm => hheard.below.child (significant_subset root hm)
  · exact fun m hm => hblock m (significant_subset root hm)

/-- An indented body says what its blocks say. -/
theorem blockBody_spoken (h : HeardBelow render n) (hkind : n.kind = .markup .blockBody) :
    Says n (elemsProse 0 (bodyContents render (significant n)).value.2) := by
  have hblock := blocks_kinds h.settled.here hkind fun _ harranges => harranges
  refine says_children hkind rfl (significant_spoken h.settled (bodyContents_spoken ?_ ?_))
  · exact fun m hm => h.child (significant_subset n hm)
  · exact fun m hm => hblock m (significant_subset n hm)

/-- What the loud children of a component are rendered to, one form of contents after the other. -/
def formsProse (render : Renderer) (parts : List Node) : List String :=
  elemsProse 0 (optionally (parts.find? (·.isMarkup .lineContent)) fun n => inlineElems render n.children).value ++
    ((parts.filter (·.isMarkup .contentBlock)).flatMap fun n => elemsProse 0 (inlineElems render (blockContents n)).value) ++
    ((parts.find? (·.isMarkup .verbatim)).map fun n => literalProse (childText n .verbatimText)).getD [] ++
    elemsProse 0 (partContents (parts.find? (·.isMarkup .markupHole)) (holeContents render)).value.2 ++
    elemsProse 0 (partContents (parts.find? (·.isMarkup .blockBody)) fun n => bodyContents render (significant n)).value.2

theorem componentContents_prose (render : Renderer) (kind : MarkupKind) (n : Node) :
    elemsProse 0 (componentContents render (commandOf kind n)).value.2 = formsProse render (loud n.children) := by
  have hline : (commandOf kind n).lineContent = (loud n.children).find? (·.isMarkup .lineContent) := child?_loud rfl
  have hblocks : (commandOf kind n).contentBlocks = (loud n.children).filter (·.isMarkup .contentBlock) :=
    filter_loud rfl n.children
  have hhole : (commandOf kind n).hole = (loud n.children).find? (·.isMarkup .markupHole) := child?_loud rfl
  have hbody : (commandOf kind n).body = (loud n.children).find? (·.isMarkup .blockBody) := child?_loud rfl
  have hverbatim : elemsProse 0 ((commandOf kind n).verbatim.map fun text => Elem.item (.str text)).toList =
      (((loud n.children).find? (·.isMarkup .verbatim)).map fun n => literalProse (childText n .verbatimText)).getD [] := by
    have hfind : n.child? .verbatim = (loud n.children).find? (·.isMarkup .verbatim) := child?_loud rfl
    rw [commandOf, ← hfind]
    cases n.child? .verbatim with
    | none => rfl
    | some body => exact elemsProse_item (.str (childText body .verbatimText))
  have hflatten : ∀ blocks : List (List Elem), elemsProse 0 blocks.flatten = blocks.flatMap (elemsProse 0) := by
    intro blocks
    induction blocks with
    | nil => rfl
    | cons elems blocks ih => rw [List.flatten_cons, elemsProse_append, ih, List.flatMap_cons]
  rw [componentContents_eq]
  simp only [Rendered.value_bind, Rendered.value_pure, Rendered.value_forAll, elemsProse_append, hverbatim, hflatten,
    List.flatMap_map]
  rw [hline, hblocks, hhole, hbody, formsProse]

/-- **Each form of contents is rendered**, and nothing else is where there is one. -/
theorem formsProse_spoken {parts : List Node} (hheard : ∀ m ∈ parts, Heard render m)
    (hbody : IsBody (parts.map Node.kind)) : SayAll parts (formsProse render parts) := by
  generalize hkinds : parts.map Node.kind = kinds at hbody
  have hline : ∀ m ∈ parts, m.kind = .markup .lineContent →
      Says m (elemsProse 0 (inlineElems render m.children).value) :=
    fun m hm hkind => phrases_spoken (hheard m hm).below hkind rfl fun _ harranges => harranges
  unfold formsProse
  cases hbody with
  | blocks kinds_eq =>
      have hall : ∀ m ∈ parts, m.kind = .markup .contentBlock :=
        fun m hm => kinds_eq _ (hkinds ▸ List.mem_map_of_mem hm)
      have hnone : ∀ k, k ≠ .contentBlock → parts.find? (·.isMarkup k) = none := by
        intro k hother
        refine List.find?_eq_none.mpr fun m hm => ?_
        rw [Node.isMarkup, hall m hm]
        simpa using hother.symm
      have hevery : parts.filter (·.isMarkup .contentBlock) = parts :=
        List.filter_eq_self.mpr fun m hm => beq_iff_eq.mpr (hall m hm)
      rw [hnone _ (by decide), hnone _ (by decide), hnone _ (by decide), hnone _ (by decide), hevery]
      have hspoken : SayAll parts (parts.flatMap fun m => elemsProse 0 (inlineElems render (blockContents m)).value) :=
        .flatMap fun m hm => contentBlock_spoken (hheard m hm).below (hall m hm)
      simpa [optionally, partContents, Rendered.value_pure, elemsProse] using hspoken
  | verbatim =>
      obtain ⟨m, rfl, hm⟩ := List.map_eq_singleton_iff.mp hkinds
      have hspoken : Says m (literalProse (childText m .verbatimText)) :=
        says_children hm rfl (text_spoken (hheard m List.mem_cons_self).below hm (.inr rfl) fun _ harranges => harranges)
      simpa [Node.isMarkup, hm, optionally, partContents, Rendered.value_pure, elemsProse] using SayAll.single hspoken
  | hole =>
      obtain ⟨m, rfl, hm⟩ := List.map_eq_singleton_iff.mp hkinds
      have hspoken := holeContents_spoken (hheard m List.mem_cons_self).below hm
      simpa [Node.isMarkup, hm, optionally, partContents, Rendered.value_pure, elemsProse] using SayAll.single hspoken
  | composite line body =>
      cases line with
      | false =>
          cases body with
          | false =>
              obtain rfl := List.map_eq_nil_iff.mp hkinds
              exact .nil
          | true =>
              obtain ⟨m, rfl, hm⟩ := List.map_eq_singleton_iff.mp hkinds
              have hspoken := blockBody_spoken (hheard m List.mem_cons_self).below hm
              simpa [Node.isMarkup, hm, optionally, partContents, Rendered.value_pure, elemsProse] using
                SayAll.single hspoken
      | true =>
          cases body with
          | false =>
              obtain ⟨m, rfl, hm⟩ := List.map_eq_singleton_iff.mp hkinds
              have hspoken := hline m List.mem_cons_self hm
              simpa [Node.isMarkup, hm, optionally, partContents, Rendered.value_pure, elemsProse] using
                SayAll.single hspoken
          | true =>
              obtain ⟨l, rest, rfl, hl, hrest⟩ := List.map_eq_cons_iff.mp hkinds
              obtain ⟨b, rfl, hb⟩ := List.map_eq_singleton_iff.mp hrest
              have hlast := blockBody_spoken (hheard b (List.mem_cons_of_mem l List.mem_cons_self)).below hb
              have hspoken := SayAll.cons (hline l List.mem_cons_self hl) (.single hlast)
              simpa [Node.isMarkup, hl, hb, optionally, partContents, Rendered.value_pure, elemsProse] using hspoken

/-- **The contents of a component say what its node says.** -/
theorem componentContents_spoken (h : HeardBelow render n) (hbody : IsBody (voiced (n.children.map Node.kind))) :
    SayAll n.children (elemsProse 0 (componentContents render (commandOf kind n)).value.2) := by
  rw [componentContents_prose]
  refine says_loud (fun m hm => h.settled.child hm) (formsProse_spoken (fun m hm => ?_) ?_)
  · exact h.child (List.mem_filter.mp hm).1
  · rw [kinds_loud]
    exact hbody

/-- A component says what its contents say. -/
theorem component_prose (settings : Settings) (render : Renderer) (c : Command) :
    (component settings render c).value.prose = elemsProse 0 (componentContents render c).value.2 := by
  unfold component
  dsimp only
  split
  · split
    · rfl
    · rfl
  · rfl

/-! ## Names of commands -/

/-- What a name stands for says nothing, unless script computes it. -/
theorem target_prose (render : Renderer) (h : ∀ expr, c.name ≠ .dynamic (some expr)) :
    (target render c).value.prose = [] := by
  unfold target
  split
  · rfl
  · rfl
  · rfl
  · rename_i expr hname
    exact absurd hname (h expr)
  · rfl
  · rfl

/-- A name that script computes stands in a child. -/
theorem dynamic_child {expr : Node} (h : commandName n = .dynamic (some expr)) :
    ∃ m ∈ n.children, m.kind = .markup .dynamicName ∧ spoken m = [none] := by
  unfold commandName at h
  split at h
  · split at h
    · exact absurd h nofun
    · exact absurd h nofun
  · split at h
    · rename_i name hname
      obtain ⟨hmem, hkind⟩ := Node.find?_spec hname
      refine ⟨name, hmem, hkind, ?_⟩
      have hexpr : name.child? .nameExpr = some expr := CommandName.dynamic.inj h
      cases name with
      | leaf => exact absurd hexpr (Option.some_ne_none expr).symm
      | fault => exact absurd hexpr (Option.some_ne_none expr).symm
      | inner kind span host count faulty children =>
          obtain rfl : kind = .markup .dynamicName := hkind
          rfl
    · exact absurd h nofun

/-- A name agrees with what the node of its command says, if nothing else in the node says anything. -/
theorem target_spoken (hsilent : ∀ m ∈ n.children, Fills (spokenIn kind m) []) :
    Fills (n.children.flatMap (spokenIn kind)) (target render (commandOf kind n)).value.prose := by
  by_cases hdynamic : ∃ expr, commandName n = .dynamic (some expr)
  · obtain ⟨expr, hname⟩ := hdynamic
    obtain ⟨m, hm, hkind, hopen⟩ := dynamic_child hname
    refine .opened hm ?_ hsilent
    rw [spokenIn_eq (.inr (by rw [hkind]; decide)), hopen]
  · rw [target_prose render fun expr hname => hdynamic ⟨expr, hname⟩]
    exact .silent hsilent

/-! ## References and interpolations -/

/-- A reference shows its target. -/
theorem reference_prose (render : Renderer) (c : Command) : (reference render c).value.prose =
    match c.name with
    | .ident name => literalProse name
    | _ => (target render c).value.prose := by
  unfold reference
  dsimp only
  cases c.name with
  | ident name => exact elemsProse_item (.str name)
  | positional number => exact elemsProse_item _
  | dynamic expr => exact elemsProse_item _
  | anonymous => exact elemsProse_item _

theorem reference_spoken (h : HeardBelow render n) (hkind : n.kind = .markup .reference) :
    Says n (reference render (commandOf .reference n)).value.prose := by
  have hsilent : ∀ m ∈ n.children, Fills (spokenIn .reference m) [] := by
    intro m hm
    rw [spokenIn_eq (.inl (by decide))]
    exact children_silent h.settled hkind (fun _ harranges => harranges) m hm
  have htarget : Fills (n.children.flatMap (spokenIn .reference)) (target render (commandOf .reference n)).value.prose :=
    target_spoken hsilent
  have hname : (commandOf .reference n).name = commandName n := rfl
  rw [Says, spoken_reference hkind, reference_prose, namedProse, hname]
  cases commandName n with
  | ident name =>
      have hshown := (Fills.all (literalProse name)).append (Fills.silent hsilent)
      rwa [List.append_nil] at hshown
  | positional number => exact htarget
  | dynamic expr => exact htarget
  | anonymous => exact htarget

/-- What an interpolation says: its contents, or what its name stands for if it has none. -/
theorem interpolation_prose (render : Renderer) (c : Command) :
    (interpolation render c).value.prose =
        (c.contentBlocks.flatMap fun n => elemsProse 0 (inlineElems render (blockContents n)).value) ∨
      c.contentBlocks = [] ∧ (interpolation render c).value.prose = (target render c).value.prose := by
  unfold interpolation
  simp only [Rendered.value_bind, Rendered.value_pure, Rendered.value_forAll, List.map_map]
  generalize (target render c).value = callee
  generalize (listedMembers render c).value = members
  generalize c.contentBlocks = blocks
  have hproperties : ∀ properties, properties = (if members.isEmpty then [] else [Elem.item (.object members)]) →
      properties = [] ∨ properties = [Elem.item (.object members)] := by
    rintro properties rfl
    split
    · exact .inl rfl
    · exact .inr rfl
  generalize hlist : (if members.isEmpty then [] else [Elem.item (.object members)]) = properties
  have hcases := hproperties properties hlist.symm
  by_cases hempty : (properties ++ blocks.map ((fun elems => Elem.item (.array elems)) ∘
      fun block => (inlineElems render (blockContents block)).value)).isEmpty = true
  · rw [if_pos hempty]
    obtain ⟨-, hnone⟩ := List.append_eq_nil_iff.mp (List.isEmpty_iff.mp hempty)
    exact .inr ⟨List.map_eq_nil_iff.mp hnone, rfl⟩
  · rw [if_neg hempty]
    refine .inl ?_
    have hnone : hasProperties (properties ++ blocks.map ((fun elems => Elem.item (.array elems)) ∘
        fun block => (inlineElems render (blockContents block)).value)) = false := by
      rcases hcases with rfl | rfl
      · match blocks with
        | [] => rfl
        | [_] => rfl
        | _ :: _ :: _ => rfl
      · match blocks with
        | [] => rfl
        | _ :: _ => rfl
    have hsilent : elemsProse 0 properties = [] := by
      rcases hcases with rfl | rfl
      · rfl
      · rfl
    rw [prose_call _ _ hnone, elemsProse_append, hsilent, List.nil_append, elemsProse_map]
    exact congrArg (blocks.flatMap ·) (funext fun _ => elemsProse_item _)

/-- An interpolation says what its contents in braces say. -/
theorem interpolation_spoken (h : HeardBelow render n) (hkind : n.kind = .markup .interpolation) :
    Says n (interpolation render (commandOf .interpolation n)).value.prose := by
  have hothers : ∀ m ∈ n.children, m.isMarkup .contentBlock = false → Fills (spokenIn .interpolation m) [] := by
    intro m hm hother
    by_cases hverbatim : m.kind = .markup .verbatim
    · rw [spokenIn, Node.isMarkup, hverbatim]
      exact .nil
    · rw [spokenIn_eq (.inr hverbatim)]
      have hcases := h.settled.here.arranged.each (p := fun k => k = .markup .contentBlock ∨ k = .markup .verbatim) hkind
        fun kinds harranges k hk => by
          have hforms : (∀ k ∈ voiced kinds, k = .markup .contentBlock) ∨ voiced kinds = [.markup .verbatim] := harranges
          rcases hforms with hblocks | hbody
          · exact .inl (hblocks k hk)
          · rw [hbody] at hk
            exact .inr (List.mem_singleton.mp hk)
      rcases hcases m hm with hquiet | hblock | hbody
      · exact quiet_spoken m (h.settled.child hm) hquiet
      · rw [Node.isMarkup, hblock] at hother
        exact absurd hother (by simp)
      · exact absurd hbody hverbatim
  rw [Says, spoken_interpolation hkind]
  rcases interpolation_prose render (commandOf .interpolation n) with hblocks | ⟨hnone, hname⟩
  · rw [hblocks]
    refine .sift hothers (.flatMap fun m hm => ?_)
    obtain ⟨hmem, hblock⟩ := List.mem_filter.mp hm
    have hblock : m.kind = .markup .contentBlock := beq_iff_eq.mp hblock
    rw [spokenIn_eq (.inr (by rw [hblock]; decide))]
    exact contentBlock_spoken (h.child hmem).below hblock
  · rw [hname]
    refine target_spoken fun m hm => hothers m hm ?_
    exact Bool.eq_false_iff.mpr (List.filter_eq_nil_iff.mp hnone m hm)

/-! ## Nodes -/

/-- A component says what its node says, if its contents are arranged as those of a component. -/
theorem component_spoken (h : HeardBelow render n) (hkind : n.kind = .markup kind) (htransparent : isTransparent kind = true)
    (hall : ∀ kinds, kind.Arranges kinds → IsBody (voiced kinds)) :
    Says n (component settings render (commandOf kind n)).value.prose := by
  rw [component_prose]
  refine says_children hkind htransparent (componentContents_spoken h ?_)
  rcases h.settled.here.arranged.children hkind with hnone | hkinds
  · rw [hnone]
    exact .blocks fun k hk => absurd hk List.not_mem_nil
  · exact hall _ hkinds

theorem image_spoken (hkind : n.kind = .markup .image) : Says n [] := by
  rw [Says, spoken_image hkind]
  exact .nil

theorem autolink_spoken (hkind : n.kind = .markup .autolink) : Says n (literalProse (childText n .url) ++ []) := by
  rw [Says, spoken_autolink hkind, List.append_nil]
  exact .all _

/-- **A node is rendered inline to what it says.** -/
theorem inlineForm_spoken (h : HeardBelow render n) (hinline : n.kind.isInline = true) :
    Says n (proseOf (inlineForm settings render n).value) := by
  cases hkind : n.kind with
  | script => rw [hkind] at hinline; exact absurd hinline Bool.false_ne_true
  | fault => rw [hkind] at hinline; exact absurd hinline Bool.false_ne_true
  | markup kind =>
      have hview : view? n = viewOf? kind n := by
        rw [view?, hkind]
        rfl
      rw [hkind] at hinline
      unfold inlineForm
      rw [hkind]
      dsimp only
      rw [hview]
      by_cases hquiet : Kind.isQuiet (.markup kind) = true
      · have hsilent := quiet_spoken n h.settled (by rw [hkind]; exact hquiet)
        cases kind
        all_goals first
          | exact absurd hquiet Bool.false_ne_true
          | exact hsilent
      · have hleaf : (∀ kinds, ¬ kind.Arranges kinds) → Says n (leafProse (.markup kind) n.text) :=
          leaf_spoken h.settled.here.arranged hkind
        have hphrases := phrases_inline h.settled.here hkind
        have htext : ∀ s : String, Says n (literalProse s) → Says n (proseOf (some (.str s))) := fun _ => id
        cases kind
        case text => exact htext _ (hleaf fun _ => id)
        case escape => exact htext _ (hleaf fun _ => id)
        case special => exact hleaf fun _ => id
        case newline => exact hleaf fun _ => id
        case codeText => exact htext _ (hleaf fun _ => id)
        case emph => exact says_children hkind rfl (delimited_spoken h (hphrases fun _ harranges => harranges))
        case strong => exact says_children hkind rfl (delimited_spoken h (hphrases fun _ harranges => harranges))
        case strikethrough => exact says_children hkind rfl (delimited_spoken h (hphrases fun _ harranges => harranges))
        case inlineCode =>
          have hcode : ∀ m ∈ n.children, m.kind.isInline = true := by
            intro m hm
            rcases h.settled.here.arranged.each hkind (fun _ harranges => harranges) m hm with hmark | hcode
            · exact Kind.isInline_quiet hmark
            · rw [hcode]
              rfl
          exact says_children hkind rfl (delimited_spoken h hcode)
        case link => exact says_children hkind rfl (link_spoken h hkind)
        case image => exact image_spoken hkind
        case autolink => exact autolink_spoken hkind
        case mathInline => exact says_children hkind rfl (formula_spoken h hkind (fun _ harranges => harranges) false)
        case inlineComponent => exact component_spoken h hkind rfl fun _ harranges => harranges
        case interpolation => exact interpolation_spoken h hkind
        case reference => exact reference_spoken h hkind
        all_goals first
          | exact absurd hinline Bool.false_ne_true
          | exact absurd rfl hquiet

/-- **A block is rendered to what it says.** -/
theorem blockForm_spoken (h : HeardBelow render n) (hblock : n.kind.isBlock = true ∨ n.kind.isQuiet = true) :
    Says n (proseOf (blockForm settings render n).value) := by
  cases hkind : n.kind with
  | script =>
      rw [hkind] at hblock
      exact hblock.elim (absurd · Bool.false_ne_true) (absurd · Bool.false_ne_true)
  | fault =>
      rw [hkind] at hblock
      exact hblock.elim (absurd · Bool.false_ne_true) (absurd · Bool.false_ne_true)
  | markup kind =>
      have hview : view? n = viewOf? kind n := by
        rw [view?, hkind]
        rfl
      rw [hkind] at hblock
      unfold blockForm
      rw [hview, Node.isMarkup, Node.isMarkup, hkind]
      by_cases hquiet : Kind.isQuiet (.markup kind) = true
      · have hsilent := quiet_spoken n h.settled (by rw [hkind]; exact hquiet)
        cases kind
        all_goals first
          | exact absurd hquiet Bool.false_ne_true
          | exact hsilent
      · have hblock := hblock.resolve_right hquiet
        cases kind
        case paragraph => exact phrases_spoken h hkind rfl fun _ harranges => harranges
        case heading => exact says_children hkind rfl (heading_spoken h hkind)
        case bulletList => exact says_children hkind rfl (list_spoken h hkind (fun _ harranges => harranges) false (firstNumber? n))
        case orderedList => exact says_children hkind rfl (list_spoken h hkind (fun _ harranges => harranges) true (firstNumber? n))
        case blockquote =>
          have hquoted := says_children hkind rfl (quotation_spoken h hkind)
          show Says n (elemsProse 0 [.spread (plainSequence render (significant n)).value])
          rwa [elemsProse_spread]
        case table => exact says_children hkind rfl (table_spoken h hkind _)
        case fencedCode => exact says_children hkind rfl (listing_spoken h hkind ((n.child? .codeInfo).map Node.text))
        case mathBlock => exact says_children hkind rfl (formula_spoken h hkind (fun _ harranges => harranges) true)
        case blockComponent => exact component_spoken h hkind rfl fun _ harranges => harranges
        case script => exact mute_spoken h.settled hkind rfl
        case attributeLine => exact mute_spoken h.settled hkind rfl
        all_goals first
          | exact absurd hblock Bool.false_ne_true
          | exact absurd rfl hquiet

/-- **A node is rendered to what it says**, by induction on the height up to which nodes are rendered. -/
theorem renderNode_repeats (settings : Settings) (height : Nat) : ∀ n : Node, n.Throughout Node.Settled →
    n.height ≤ height → Repeats (renderNode settings height) n := by
  induction height with
  | zero =>
      intro n _ hheight
      cases n with
      | leaf => exact absurd hheight (Nat.not_succ_le_zero 0)
      | fault => exact absurd hheight (Nat.not_succ_le_zero 0)
      | inner kind span host count faulty children => exact absurd hheight (Nat.not_succ_le_zero _)
  | succ height ih =>
      intro n hsettled hheight
      have hbelow : HeardBelow (renderNode settings height) n := by
        refine ⟨hsettled, fun m hm k hk => ih k ?_ ?_⟩
        · exact fun j hj => hsettled j (Node.Within.trans (.child .root hm) (hk.trans hj))
        · have hlow : m.height ≤ height := by
            cases n with
            | leaf => exact absurd hm List.not_mem_nil
            | fault => exact absurd hm List.not_mem_nil
            | inner kind span host count faulty children =>
                exact Nat.le_of_succ_le_succ (Nat.le_trans (Nat.succ_le_succ (Node.height_le_heightOf hm)) hheight)
          exact Nat.le_trans hk.height_le hlow
      have hlocated : ∀ e : Option Expr, proseOf (e.map (·.located n.start)) = proseOf e := by
        intro e
        cases e with
        | none => rfl
        | some e => exact prose_located e n.start
      refine ⟨fun hinline => ?_, fun hblock => ?_⟩
      · have hform : Says n (proseOf (inlineForm settings _ n).value) := inlineForm_spoken hbelow hinline
        rw [renderNode, Rendered.value_bind, Rendered.value_pure, hlocated]
        exact hform
      · have hform : Says n (proseOf (blockForm settings _ n).value) := blockForm_spoken hbelow hblock
        rw [renderNode, Rendered.value_bind, Rendered.value_pure, hlocated]
        exact hform

/-! ## Documents -/

/-- **A document is rendered to what it says.** -/
theorem renderDocument_spoken {root : Node} (settings : Settings) (h : root.Throughout Node.Settled)
    (hkind : root.kind = .markup .document) :
    Says root (renderDocument settings root.height (significant root)).value.2.prose := by
  have hheard : ∀ m ∈ root.children, Heard (renderNode settings root.height) m := by
    intro m hm
    refine ⟨h.child hm, fun k hk => ?_⟩
    have hwithin : Node.Within root k := Node.Within.trans (.child .root hm) hk
    exact renderNode_repeats settings root.height k (fun j hj => h j (hwithin.trans hj)) hwithin.height_le
  have hblock := blocks_kinds h.here hkind fun _ harranges => harranges
  have hall := sequence_spoken (fun m hm => hheard m (significant_subset root hm))
    (fun m hm => hblock m (significant_subset root hm)) true
  exact says_children hkind rfl (significant_spoken h hall)

/-- The default export says what its blocks say. -/
theorem documentTerm_prose (members : List Member) (body : Expr) : (documentTerm members body).prose = body.prose := by
  have hbody : (documentTerm members body).prose = elemsProse 0 [.spread body] ++ [] := rfl
  rw [hbody, List.append_nil, elemsProse_spread]

end ComponentMarkup.Render

namespace ComponentMarkup

open ComponentMarkup.Tree ComponentMarkup.Document ComponentMarkup.Program ComponentMarkup.Render

variable {text : String} {settings : Settings} {compiled : Compiled}

/-- A module ends with its default export. -/
theorem moduleLayout_end (settings : Settings) (needs : Needs) (document : String) (e : Expr) :
    ∃ front, moduleLayout settings needs document e = front ++ e.layout ++ [.text ";\n"] := by
  have hsplit : ∀ (chunks : List Chunk) (debug : Chunk), chunks ++ debug :: .text "export default " :: e.layout ++
      [.text ";\n"] = chunks ++ [debug, .text "export default "] ++ e.layout ++ [.text ";\n"] := by
    intro chunks debug
    rw [List.append_assoc chunks [_, _]]
    rfl
  exact ⟨_, hsplit _ _⟩

/-- **A program says what its document says.**  The default export, before it is simplified, has the content of the
document among its string literals: what every leaf stands for, once and in the order of the text, but nothing for
scripts, comments, labels of images and the verbatim bodies of interpolations.  Simplifying joins literals that stand
side by side, each into one, and all of those are printed in order at the end of the program. -/
theorem compile_prose (h : compile text settings = .ok compiled) :
    ∃ root x front, RendersTo text settings root x ∧
      Fills (spoken root) (documentTerm x.value.1 x.value.2).prose ∧
      (documentTerm x.value.1 x.value.2).prose.Sublist (documentTerm x.value.1 x.value.2).strings ∧
      Joins (documentTerm x.value.1 x.value.2).strings (documentExpr x.value.1 x.value.2).strings ∧
      Spells (chunkText (documentExpr x.value.1 x.value.2).layout) (documentExpr x.value.1 x.value.2).strings ∧
      compiled.program = front ++ chunkText (documentExpr x.value.1 x.value.2).layout ++ ";\n" := by
  obtain ⟨root, nodes, hparse, -, hview, hprogram, -⟩ := compile_inv h
  have hkind := parse_kind hparse
  have hnodes : nodes = significant root := by
    have hsequence : view? root = some (.sequence (significant root)) := by
      rw [view?, hkind]
      rfl
    exact View.sequence.inj (Option.some.inj (hview.symm.trans hsequence))
  have hspoken := renderDocument_spoken settings (parse_settled hparse) hkind
  rw [← hnodes] at hspoken
  have hrenders : RendersTo text settings root (renderDocument settings root.height nodes) := ⟨hparse, nodes, hview, rfl⟩
  have hlaid : compiled.program = chunkText (moduleLayout settings (renderDocument settings root.height nodes).needs text
      (documentExpr (renderDocument settings root.height nodes).value.1
        (renderDocument settings root.height nodes).value.2)) := hprogram
  generalize renderDocument settings root.height nodes = x at hspoken hrenders hlaid
  obtain ⟨front, hfront⟩ := moduleLayout_end settings x.needs text (documentExpr x.value.1 x.value.2)
  refine ⟨root, x, chunkText front, hrenders, ?_, prose_sublist _, simplify_strings _, layout_spells _, ?_⟩
  · rw [documentTerm_prose]
    exact hspoken
  · rw [hlaid, hfront, chunkText_append, chunkText_append]
    rfl

/-- Whether the tree of a text and what its document is rendered to pass a test. -/
def documentPasses (text : String) (test : Node → List Member × Expr → Bool) : Bool :=
  match parse text with
  | .error _ => false
  | .ok root =>
    match view? root with
    | some (.sequence nodes) => test root (renderDocument {} root.height nodes).value
    | _ => false

theorem RendersTo.passes {root : Node} {x : Rendered (List Member × Expr)} {test : Node → List Member × Expr → Bool}
    (h : RendersTo text {} root x) (hpass : documentPasses text test = true) : test root x.value = true := by
  obtain ⟨nodes, hview, rfl⟩ := h.rendered
  unfold documentPasses at hpass
  rw [h.parsed] at hpass
  dsimp only at hpass
  rwa [hview] at hpass

/-- Emphasis between texts, an escaped character and a dash: each is a literal of its own before some are joined. -/
theorem compile_prose_emphasis : ∃ compiled root x front, compile "a *b* \\* --- c" {} = .ok compiled ∧
    RendersTo "a *b* \\* --- c" {} root x ∧
    spoken root = ["a ", "b", " ", "*", " ", "\u2014", " c"].map some ∧
    Fills (spoken root) (documentTerm x.value.1 x.value.2).prose ∧
    (documentExpr x.value.1 x.value.2).strings = ["p", "a ", "em", "b", " * \u2014 c"] ∧
    compiled.program = front ++ chunkText (documentExpr x.value.1 x.value.2).layout ++ ";\n" := by
  have hcompiles : (compile "a *b* \\* --- c" {}).toBool = true := by decide +kernel
  have hpass : documentPasses "a *b* \\* --- c" (fun root value => decide
      (spoken root = ["a ", "b", " ", "*", " ", "\u2014", " c"].map some ∧
        (documentExpr value.1 value.2).strings = ["p", "a ", "em", "b", " * \u2014 c"])) = true := by
    decide +kernel
  cases h : compile "a *b* \\* --- c" {} with
  | error e =>
      rw [h] at hcompiles
      exact absurd hcompiles Bool.false_ne_true
  | ok compiled =>
      obtain ⟨root, x, front, hrenders, hfills, -, -, -, hprogram⟩ := compile_prose h
      obtain ⟨hspoken, hstrings⟩ := of_decide_eq_true (hrenders.passes hpass)
      exact ⟨compiled, root, x, front, rfl, hrenders, hspoken, hfills, hstrings, hprogram⟩

/-- The verbatim body of an interpolation is in no literal. -/
theorem compile_prose_verbatim : ∃ compiled root x, compile "#f\x7b|raw|\x7d" {} = .ok compiled ∧
    RendersTo "#f\x7b|raw|\x7d" {} root x ∧
    (∃ leaf ∈ root.leaves, leaf.kind = .markup .verbatimText ∧ leaf.text = "raw") ∧
    (documentExpr x.value.1 x.value.2).strings = ["p"] := by
  have hcompiles : (compile "#f\x7b|raw|\x7d" {}).toBool = true := by decide +kernel
  have hpass : documentPasses "#f\x7b|raw|\x7d" (fun root value => decide
      ((∃ leaf ∈ root.leaves, leaf.kind = .markup .verbatimText ∧ leaf.text = "raw") ∧
        (documentExpr value.1 value.2).strings = ["p"])) = true := by
    decide +kernel
  cases h : compile "#f\x7b|raw|\x7d" {} with
  | error e =>
      rw [h] at hcompiles
      exact absurd hcompiles Bool.false_ne_true
  | ok compiled =>
      obtain ⟨root, nodes, hparse, -, hview, -, -⟩ := compile_inv h
      have hrenders : RendersTo "#f\x7b|raw|\x7d" {} root (renderDocument {} root.height nodes) :=
        ⟨hparse, nodes, hview, rfl⟩
      exact ⟨compiled, root, _, rfl, hrenders, of_decide_eq_true (hrenders.passes hpass)⟩

end ComponentMarkup
