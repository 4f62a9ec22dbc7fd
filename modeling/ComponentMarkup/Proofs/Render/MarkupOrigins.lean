import ComponentMarkup.Proofs.Render.ScriptOrigins

/-!
# Where rendered documents stem from

The nodes of a document are rendered by one rule for each kind of command, of block and of inline content.  Each
rule is sound if the nodes below are rendered soundly, so all nodes are, by induction on the height up to which they
are rendered.

* `command_sound`, `blockForm_sound`, `inlineForm_sound` — the rules are sound;
* `renderDocument_sound`, `documentTerm_sound` — rendering a document is, and so is the default export made of it.
-/

namespace ComponentMarkup.Render

open ComponentMarkup.Text ComponentMarkup.Tree ComponentMarkup.Document ComponentMarkup.Program

variable {root n : Node} {render : Renderer} {settings : Settings} {c : Command} {nodes : List Node}

/-! ## Commands -/

theorem problemValue_sound (message : String) (hints : List String) :
    (problemValue c message hints).Sound root (SoundExpr root) :=
  (Rendered.Sound.report _).bind fun _ _ => .pure sound_null

theorem target_sound (hrender : SoundRenderer root render) (hscripts : SoundScripts root) (h : c.Within root) :
    (target render c).Sound root (SoundExpr root) := by
  unfold target
  split
  · exact .refer _
  · exact problemValue_sound _ _
  · exact (Rendered.Sound.refer _).bind fun _ harguments => .pure (sound_index harguments _)
  · rename_i expr hname
    refine (hostedExpr_sound hrender hscripts (h.name expr hname)).bind fun e? he => ?_
    split
    · exact .pure (he _ rfl)
    · exact problemValue_sound _ _
  · exact problemValue_sound _ _
  · exact .pure (sound_ident _)

theorem listedMembers_sound (hrender : SoundRenderer root render) (hscripts : SoundScripts root) (h : c.Within root) :
    (listedMembers render c).Sound root (SoundMembers root) := by
  unfold listedMembers
  split
  · exact .pure .nil
  · rename_i host hhost
    exact hostedMembers_sound hrender hscripts (h.properties host hhost)

theorem reference_sound (hrender : SoundRenderer root render) (hscripts : SoundScripts root) (h : c.Within root) :
    (reference render c).Sound root (SoundExpr root) := by
  have hrest : ∀ name, SoundExpr root name → Rendered.Sound root (SoundExpr root) do
      let component ← Rendered.refer "Ref"
      let members ← listedMembers render c
      return .element component (.object members) [.item name] := by
    intro name hname
    refine (Rendered.Sound.refer _).bind fun component hcomponent => ?_
    refine (listedMembers_sound hrender hscripts h).bind fun members hmembers => .pure ?_
    exact sound_element hcomponent (sound_object hmembers) (.single hname)
  unfold reference
  dsimp only
  split
  · exact (Rendered.Sound.pure (sound_str _)).bind hrest
  · exact (target_sound hrender hscripts h).bind hrest

/-- The contents of blocks in braces. -/
theorem blocks_sound (hrender : SoundRenderer root render) {blocks : List Node}
    (h : ∀ block ∈ blocks, Node.Within root block) :
    (Rendered.forAll (fun block => inlineElems render (blockContents block)) blocks).Sound root
      fun contents => ∀ elems ∈ contents, SoundElems root elems :=
  .forAll fun block hblock => inlineElems_sound hrender (within_picked (h block hblock) (without_subset _ block))

theorem interpolation_sound (hrender : SoundRenderer root render) (hscripts : SoundScripts root)
    (h : c.Within root) : (interpolation render c).Sound root (SoundExpr root) := by
  refine (target_sound hrender hscripts h).bind fun callee hcallee => ?_
  refine (listedMembers_sound hrender hscripts h).bind fun members hmembers => ?_
  refine (blocks_sound hrender h.contentBlocks).bind fun blocks hblocks => .pure ?_
  have harrays : ∀ elem ∈ blocks.map fun elems => Elem.item (.array elems),
      elem.isItem ∧ SoundExpr root elem.expr := by
    intro elem helem
    obtain ⟨elems, helems, rfl⟩ := List.mem_map.mp helem
    exact ⟨rfl, sound_array (hblocks elems helems)⟩
  have hproperties : ∀ elem ∈ if members.isEmpty then [] else [Elem.item (.object members)],
      elem.isItem ∧ SoundExpr root elem.expr := by
    intro elem helem
    split at helem
    · exact absurd helem List.not_mem_nil
    · obtain rfl := List.mem_singleton.mp helem
      exact ⟨rfl, sound_object hmembers⟩
  generalize (if members.isEmpty then [] else [Elem.item (.object members)]) = properties at hproperties ⊢
  split
  · exact hcallee
  · have hall := fun elem helem => (List.mem_append.mp helem).elim (hproperties elem) (harrays elem)
    exact sound_call hcallee (fun elem helem => (hall elem helem).2) (.inl fun elem helem => (hall elem helem).1)

/-- Properties and children that are sound. -/
abbrev SoundContents (root : Node) (x : List Member × List Elem) : Prop :=
  SoundMembers root x.1 ∧ SoundElems root x.2

theorem bodyContents_sound (hrender : SoundRenderer root render) (hscripts : SoundScripts root)
    (h : ∀ n ∈ nodes, Node.Within root n) : (bodyContents render nodes).Sound root (SoundContents root) := by
  unfold bodyContents
  split
  · exact (configurableSequence_sound hrender hscripts h).bind fun x hx => .pure ⟨hx.1, .single hx.2⟩
  · rename_i paragraph hsole
    have hparagraph := soleParagraph?_mem hsole
    refine (sequenceParts_sound hrender hscripts true fun n hn => h n (List.mem_filter.mp hn).1).bind
      fun parts hparts => ?_
    refine (inlineElems_sound hrender fun n hn => (h paragraph hparagraph).child hn).bind fun children hchildren => ?_
    exact .pure ⟨partProperties_sound hparts, hchildren⟩

theorem holeContents_sound (hrender : SoundRenderer root render) (hscripts : SoundScripts root)
    (h : Node.Within root n) : (holeContents render n).Sound root (SoundContents root) := by
  unfold holeContents
  split
  · rename_i nodes hnodes
    exact bodyContents_sound hrender hscripts (hostedSequence?_within h hnodes)
  · exact .pure ⟨.nil, .single (sound_str _)⟩

theorem componentContents_sound (hrender : SoundRenderer root render) (hscripts : SoundScripts root)
    (h : c.Within root) : (componentContents render c).Sound root (SoundContents root) := by
  have hline : (optionally c.lineContent fun n => inlineElems render n.children).Sound root (SoundElems root) := by
    unfold optionally
    split
    · rename_i line hcontent
      exact inlineElems_sound hrender fun m hm => (h.lineContent line hcontent).child hm
    · exact .pure .nil
  have hverbatim : SoundElems root (c.verbatim.map fun text => Elem.item (.str text)).toList :=
    .optional (fun text => sound_str text) c.verbatim
  refine hline.bind fun line hline => ?_
  refine (blocks_sound hrender h.contentBlocks).bind fun blocks hblocks => ?_
  have hflat : SoundElems root blocks.flatten := by
    intro elem helem
    obtain ⟨elems, helems, hmem⟩ := List.mem_flatten.mp helem
    exact hblocks elems helems elem hmem
  have hall : ∀ x y : List Member × List Elem, SoundContents root x → SoundContents root y → SoundContents root
      (x.1 ++ y.1, line ++ blocks.flatten ++ (c.verbatim.map fun text => Elem.item (.str text)).toList ++ x.2 ++ y.2) :=
    fun x y hx hy => ⟨hx.1.append hy.1, (((hline.append hflat).append hverbatim).append hx.2).append hy.2⟩
  have hnothing : (Pure.pure ([], []) : Rendered (List Member × List Elem)).Sound root (SoundContents root) :=
    .pure ⟨.nil, .nil⟩
  have hbody : ∀ body, c.body = some body →
      (bodyContents render (significant body)).Sound root (SoundContents root) :=
    fun body hbody => bodyContents_sound hrender hscripts (within_picked (h.body body hbody) (significant_subset body))
  dsimp only
  split
  · rename_i hole hhole
    apply (holeContents_sound hrender hscripts (h.hole hole hhole)).bind
    intro x hx
    split
    · exact (hbody _ ‹_›).bind fun y hy => .pure (hall x y hx hy)
    · exact hnothing.bind fun y hy => .pure (hall x y hx hy)
  · apply hnothing.bind
    intro x hx
    split
    · exact (hbody _ ‹_›).bind fun y hy => .pure (hall x y hx hy)
    · exact hnothing.bind fun y hy => .pure (hall x y hx hy)

theorem component_sound (hrender : SoundRenderer root render) (hscripts : SoundScripts root) (h : c.Within root) :
    (component settings render c).Sound root (SoundExpr root) := by
  have hrest : ∀ name isBlock, SoundExpr root name → SoundMembers root isBlock →
      Rendered.Sound root (SoundExpr root) do
        let listed ← listedMembers render c
        let contents ← componentContents render c
        return .element name (.object (isBlock ++ listed ++ contents.1)) contents.2 := by
    intro name isBlock hname hisBlock
    refine (listedMembers_sound hrender hscripts h).bind fun listed hlisted => ?_
    refine (componentContents_sound hrender hscripts h).bind fun contents hcontents => .pure ?_
    exact sound_element hname (sound_object (.append (.append hisBlock hlisted) hcontents.1)) hcontents.2
  have hisBlock : ∀ told : Bool, SoundMembers root
      (if told then [] else [Member.pair "block" (.bool (c.kind == .blockComponent))]) := by
    intro told
    cases told with
    | true => exact .nil
    | false => exact .single (sound_bool _)
  unfold component
  dsimp only
  split
  · split
    · exact (Rendered.Sound.pure (sound_str _)).bind fun name hname => hrest name _ hname (hisBlock _)
    · exact (Rendered.Sound.refer _).bind fun name hname => hrest name _ hname (hisBlock _)
  · exact (target_sound hrender hscripts h).bind fun name hname => hrest name _ hname (hisBlock _)

/-- **Commands are rendered soundly.** -/
theorem command_sound (hrender : SoundRenderer root render) (hscripts : SoundScripts root) (h : c.Within root) :
    (command settings render c).Sound root (SoundExpr root) := by
  unfold command
  split
  · exact reference_sound hrender hscripts h
  · exact interpolation_sound hrender hscripts h
  · exact component_sound hrender hscripts h

/-! ## Blocks -/

theorem taskBox_sound (done : Bool) : SoundExpr root (taskBox done) := by
  refine sound_element (sound_str _) (sound_object fun member hmember => ?_) .nil
  simp only [List.mem_cons, List.not_mem_nil, or_false] at hmember
  rcases hmember with rfl | rfl | rfl
  · exact sound_str _
  · exact sound_bool done
  · exact sound_bool true

theorem item_sound (hrender : SoundRenderer root render) (hscripts : SoundScripts root) (h : Node.Within root n) :
    (item render n).Sound root fun elem => SoundExpr root elem.expr := by
  unfold item
  split
  · rename_i task blocks hview
    refine (plainSequence_sound hrender hscripts (view?_within h hview)).bind fun body hbody => .pure ?_
    exact sound_located (sound_tag "li" (.append (.optional taskBox_sound task) (.single hbody))) h
  · exact .pure sound_null

theorem list_sound (hrender : SoundRenderer root render) (hscripts : SoundScripts root) (ordered : Bool)
    (first : Option Nat) (h : ∀ n ∈ nodes, Node.Within root n) :
    (list render ordered first nodes).Sound root (SoundExpr root) := by
  refine (Rendered.Sound.forAll fun n hn => item_sound hrender hscripts (h n hn)).bind fun elems helems => .pure ?_
  refine sound_element (sound_str _) (sound_object ?_) helems
  split
  · split
    · exact .nil
    · exact .single (sound_code ⟨copies_plain _, fun _ he => absurd he List.not_mem_nil⟩)
  · exact .nil

theorem cells_sound (hrender : SoundRenderer root render) (tag : String) {aligns : List (Option Align)}
    (h : ∀ n ∈ nodes, Node.Within root n) : (cells render tag aligns nodes).Sound root (SoundElems root) := by
  induction nodes generalizing aligns with
  | nil => exact .pure .nil
  | cons n nodes ih =>
      refine (inlineElems_sound hrender fun m hm => (h n List.mem_cons_self).child hm).bind fun children hchildren => ?_
      refine (ih fun m hm => h m (List.mem_cons_of_mem n hm)).bind fun others hothers => .pure ?_
      refine .cons (sound_element (sound_str tag) (sound_object (.optional (fun align => ?_) _)) hchildren) hothers
      exact sound_str _

theorem row_sound (hrender : SoundRenderer root render) (tag : String) (aligns : List (Option Align))
    (h : Node.Within root n) : (row render tag aligns n).Sound root fun elem => SoundExpr root elem.expr :=
  (cells_sound hrender tag (within_picked h List.filter_sublist.subset)).bind fun _ helems =>
    .pure (sound_located (sound_tag "tr" helems) h)

theorem table_sound (hrender : SoundRenderer root render) {header : Option Node} {rows : List Node}
    (aligns : List (Option Align)) (h : ∀ n ∈ header.toList ++ rows, Node.Within root n) :
    (table render header rows aligns).Sound root (SoundExpr root) := by
  refine (Rendered.Sound.forAll fun n hn => row_sound hrender "th" aligns
    (h n (List.mem_append_left _ hn))).bind fun head hhead => ?_
  refine (Rendered.Sound.forAll fun n hn => row_sound hrender "td" aligns
    (h n (List.mem_append_right _ hn))).bind fun body hbody => .pure ?_
  exact sound_tag "table" (.cons (sound_tag "thead" hhead) (.single (sound_tag "tbody" hbody)))

theorem listing_sound (language : Option String) (code : String) :
    (listing language code).Sound root (SoundExpr root) := by
  refine (Rendered.Sound.refer _).bind fun component hcomponent => .pure ?_
  refine sound_element hcomponent (sound_object (.optional (fun name => ?_) language)) (.single (sound_str code))
  exact sound_str name

theorem formula_sound (hrender : SoundRenderer root render) (display : Bool) (h : ∀ n ∈ nodes, Node.Within root n) :
    (formula render display nodes).Sound root (SoundExpr root) :=
  (Rendered.Sound.refer _).bind fun _ hcomponent => (inlineElems_sound hrender h).bind fun _ hchildren =>
    .pure (sound_element hcomponent (sound_object .nil) hchildren)

/-- A result that is there if it is sound. -/
abbrev SoundForm (root : Node) (e? : Option Expr) : Prop :=
  ∀ e ∈ e?, SoundExpr root e

theorem soundForm_some {e : Expr} (h : SoundExpr root e) : SoundForm root (some e) :=
  fun _ he => Option.mem_some_iff.mp he ▸ h

theorem soundForm_none : SoundForm root none :=
  fun e he => absurd he (Option.not_mem_none e)

/-- **Blocks are rendered soundly.** -/
theorem blockForm_sound (hrender : SoundRenderer root render) (hscripts : SoundScripts root)
    (h : Node.Within root n) : (blockForm settings render n).Sound root (SoundForm root) := by
  unfold blockForm
  split
  · rename_i level nodes hview
    exact (inlineElems_sound hrender (view?_within h hview)).bind fun _ hchildren =>
      .pure (soundForm_some (sound_tag _ hchildren))
  · rename_i ordered first items hview
    exact (list_sound hrender hscripts ordered first (view?_within h hview)).map fun _ he => soundForm_some he
  · rename_i blocks hview
    exact (plainSequence_sound hrender hscripts (view?_within h hview)).bind fun _ hbody =>
      .pure (soundForm_some (sound_tag "blockquote" (.single hbody)))
  · rename_i header rows aligns hview
    exact (table_sound hrender aligns (view?_within h hview)).map fun _ he => soundForm_some he
  · exact (listing_sound _ _).map fun _ he => soundForm_some he
  · rename_i nodes hview
    exact (formula_sound hrender true (view?_within h hview)).map fun _ he => soundForm_some he
  · rename_i c hview
    split
    · exact (command_sound hrender hscripts (view?_within h hview)).map fun _ he => soundForm_some he
    · exact .pure soundForm_none
  · split
    · exact (inlineElems_sound hrender fun m hm => h.child hm).bind fun _ hchildren =>
        .pure (soundForm_some (sound_tag "p" hchildren))
    · split
      · exact .pure (soundForm_some (sound_str _))
      · exact .pure soundForm_none

/-! ## Inline content -/

theorem link_sound (hrender : SoundRenderer root render) (image : Bool) (url : String)
    (h : ∀ n ∈ nodes, Node.Within root n) : (link render image url nodes).Sound root (SoundExpr root) := by
  unfold link
  split
  · refine .pure (sound_element (sound_str _) (sound_object fun member hmember => ?_) .nil)
    rcases List.mem_pair.mp hmember with rfl | rfl
    · exact sound_str _
    · exact sound_str _
  · exact (inlineElems_sound hrender h).bind fun _ hchildren =>
      .pure (sound_element (sound_str _) (sound_object (.single (sound_str url))) hchildren)

theorem plainInline?_sound (kind : MarkupKind) (n : Node) : SoundForm root (plainInline? kind n) := by
  unfold plainInline?
  split
  all_goals first
    | exact soundForm_some (sound_str _)
    | exact soundForm_none
    | exact soundForm_some
        (sound_element (sound_str _) (sound_object (.single (sound_str _))) (.single (sound_str _)))

/-- **Inline content is rendered soundly.** -/
theorem inlineForm_sound (hrender : SoundRenderer root render) (hscripts : SoundScripts root)
    (h : Node.Within root n) : (inlineForm settings render n).Sound root (SoundForm root) := by
  unfold inlineForm
  split
  · rename_i kind _
    split
    · rename_i nodes hview
      exact (inlineElems_sound hrender (view?_within h hview)).bind fun _ hchildren =>
        .pure (soundForm_some (sound_tag _ hchildren))
    · rename_i image url nodes hview
      exact (link_sound hrender image url (view?_within h hview)).map fun _ he => soundForm_some he
    · rename_i nodes hview
      exact (formula_sound hrender false (view?_within h hview)).map fun _ he => soundForm_some he
    · rename_i c hview
      split
      · exact .pure soundForm_none
      · exact (command_sound hrender hscripts (view?_within h hview)).map fun _ he => soundForm_some he
    · exact .pure (plainInline?_sound kind n)
  · exact .pure soundForm_none

/-! ## Nodes and documents -/

/-- Nodes are rendered soundly up to every height. -/
theorem renderNode_sound (hscripts : SoundScripts root) (settings : Settings) (height : Nat) :
    SoundRenderer root (renderNode settings height) := by
  -- what is rendered up to some height only asks for what is below, up to a smaller one
  induction height with
  | zero => exact fun _ _ _ => .pure soundForm_none
  | succ height ih =>
      intro role n hn
      have hplace : ∀ e?, SoundForm root e? → SoundForm root (e?.map (·.located n.start)) := by
        intro e? he e hmem
        obtain ⟨inner, hinner, rfl⟩ := Option.mem_map.mp hmem
        exact sound_located (he inner hinner) hn
      cases role with
      | block => exact (blockForm_sound ih hscripts hn).bind fun e? he => .pure (hplace e? he)
      | inline => exact (inlineForm_sound ih hscripts hn).bind fun e? he => .pure (hplace e? he)

/-- **Documents are rendered soundly.** -/
theorem renderDocument_sound (hscripts : SoundScripts root) (settings : Settings) (height : Nat)
    (h : ∀ n ∈ nodes, Node.Within root n) :
    (renderDocument settings height nodes).Sound root fun x => SoundMembers root x.1 ∧ SoundExpr root x.2 :=
  configurableSequence_sound (renderNode_sound hscripts settings height) hscripts h

/-- The default export before it is simplified. -/
def documentTerm (members : List Member) (body : Expr) : Expr :=
  .call (.ident "observer") [.item (.bare (.arrow documentProperties
    (.element (.ident documentComponent) (.object (.spread (.ident documentProperties) :: members)) [.spread body])))]

theorem documentExpr_eq (members : List Member) (body : Expr) :
    documentExpr members body = simplify (documentTerm members body) :=
  rfl

theorem documentTerm_sound {members : List Member} {body : Expr} (hmembers : SoundMembers root members)
    (hbody : SoundExpr root body) : SoundExpr root (documentTerm members body) := by
  have hspread : SoundMember root (.spread (.ident documentProperties)) := rfl
  have hproperties : SoundMembers root (.spread (.ident documentProperties) :: members) :=
    (SoundMembers.single hspread).append hmembers
  refine sound_call (sound_ident _) (.single (sound_arrow _ ?_)) (.inl fun elem helem => ?_)
  · exact sound_element (sound_ident _) (sound_object hproperties) (.single hbody)
  · exact List.mem_singleton.mp helem ▸ rfl

end ComponentMarkup.Render
