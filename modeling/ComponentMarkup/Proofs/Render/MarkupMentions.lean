import ComponentMarkup.Proofs.Render.ScriptMentions

/-!
# Names noted of documents

Commands, blocks and inline content note the names that their expressions mention if the nodes below do.  A component
is noted by its name unless it is an element, and so are the components that references, listings and formulas stand
for.  Names of elements, texts and properties are strings, and so mention nothing.  So all nodes of a document tell
their names, by induction on the height up to which they are rendered.

* `command_tells`, `blockForm_tells`, `inlineForm_tells` — the rules tell the names of what they render;
* `renderDocument_tells` — rendering a document does.
-/

namespace ComponentMarkup.Render

open ComponentMarkup.Text ComponentMarkup.Tree ComponentMarkup.Document ComponentMarkup.Program

variable {root n : Node} {name : String} {render : Renderer} {settings : Settings} {c : Command} {nodes : List Node}

/-! ## Commands -/

theorem problemValue_tells (message : String) (hints : List String) :
    (problemValue c message hints).Tells root name ((problemValue c message hints).value.Mentions name) :=
  .congr (.map (.report _) _) (by simp [problemValue, Rendered.value_bind, Rendered.value_pure])

theorem target_tells (hname : IsComponentName name) (hrender : TellingRenderer root name render)
    (hscripts : SoundScripts root) (h : c.Within root) :
    (target render c).Tells root name ((target render c).value.Mentions name) := by
  unfold target
  split
  · exact .refer _
  · exact problemValue_tells _ _
  · exact .congr (.map (.refer _) _) mentions_index.symm
  · rename_i expr hdynamic
    have hexpr := hostedExpr_tells hname hrender hscripts (h.name expr hdynamic)
    rw [Rendered.value_bind]
    cases hvalue : (hostedExpr render expr).value with
    | none =>
        rw [hvalue] at hexpr
        refine .congr (.bind (q := (problemValue c "command name is empty" []).value.Mentions name) hexpr ?_) ?_
        · rw [hvalue]
          exact problemValue_tells _ _
        · simp
    | some e =>
        rw [hvalue] at hexpr
        refine .congr (.bind (q := False) hexpr ?_) ?_
        · rw [hvalue]
          exact .pure _
        · simp [Rendered.value_pure]
  · exact problemValue_tells _ _
  · exact .congr (.pure _) (by simp [Rendered.value_pure, hname.ne_fragment])

theorem listedMembers_tells (hname : IsComponentName name) (hrender : TellingRenderer root name render)
    (hscripts : SoundScripts root) (h : c.Within root) :
    (listedMembers render c).Tells root name (∃ member ∈ (listedMembers render c).value, member.Mentions name) := by
  unfold listedMembers
  split
  · exact .congr (.pure _) (by simp [Rendered.value_pure])
  · rename_i host hhost
    exact hostedMembers_tells hname hrender hscripts (h.properties host hhost)

theorem reference_tells (hname : IsComponentName name) (hrender : TellingRenderer root name render)
    (hscripts : SoundScripts root) (h : c.Within root) :
    (reference render c).Tells root name ((reference render c).value.Mentions name) := by
  -- what is behind the name of the target
  have hrest : ∀ x : Rendered Expr, x.Tells root name (x.value.Mentions name) → ∀ y, y = (x >>= fun target => do
      let component ← Rendered.refer "Ref"
      let members ← listedMembers render c
      return Expr.element component (.object members) [.item target]) → y.Tells root name (y.value.Mentions name) := by
    rintro x hx _ rfl
    refine .congr (.bind hx (.bind (.refer "Ref") (.map (listedMembers_tells hname hrender hscripts h) _))) ?_
    simp only [Rendered.value_bind, Rendered.value_pure, mentions_element hname, mentions_object, List.mem_singleton,
      exists_eq_left, Elem.expr]
    exact or_rotate
  unfold reference
  dsimp only
  split
  · exact hrest _ (.congr (.pure _) (by simp [Rendered.value_pure])) _ rfl
  · exact hrest _ (target_tells hname hrender hscripts h) _ rfl

/-- The contents of blocks in braces. -/
theorem blocks_tells (hrender : TellingRenderer root name render) (h : ∀ block ∈ nodes, Node.Within root block) :
    (Rendered.forAll (fun block => inlineElems render (blockContents block)) nodes).Tells root name
      (∃ elems ∈ (Rendered.forAll (fun block => inlineElems render (blockContents block)) nodes).value,
        ∃ elem ∈ elems, elem.expr.Mentions name) :=
  .forAll (q := fun elems : List Elem => ∃ elem ∈ elems, elem.expr.Mentions name)
    fun block hblock => inlineElems_tells hrender (within_picked (h block hblock) (without_subset _ block))

theorem interpolation_tells (hname : IsComponentName name) (hrender : TellingRenderer root name render)
    (hscripts : SoundScripts root) (h : c.Within root) :
    (interpolation render c).Tells root name ((interpolation render c).value.Mentions name) := by
  refine .congr (.bind (target_tells hname hrender hscripts h)
    (.bind (listedMembers_tells hname hrender hscripts h) (.map (blocks_tells hrender h.contentBlocks) _))) ?_
  unfold interpolation
  simp only [Rendered.value_bind, Rendered.value_pure]
  generalize (target render c).value = callee
  generalize (listedMembers render c).value = members
  generalize (Rendered.forAll _ c.contentBlocks).value = blocks
  have hblocks : (∃ elem ∈ blocks.map fun elems => Elem.item (.array elems), elem.expr.Mentions name) ↔
      ∃ elems ∈ blocks, ∃ elem ∈ elems, elem.expr.Mentions name := by simp [Elem.expr]
  have hproperties : (∃ elem ∈ if members.isEmpty then [] else [Elem.item (.object members)], elem.expr.Mentions name) ↔
      ∃ member ∈ members, member.Mentions name := by
    cases members <;> simp [Elem.expr]
  rw [← hblocks, ← hproperties]
  generalize (if members.isEmpty then [] else [Elem.item (.object members)]) = properties
  generalize (blocks.map fun elems => Elem.item (.array elems)) = arrays
  split
  · rename_i hempty
    obtain ⟨hnone, hnothing⟩ := List.append_eq_nil_iff.mp (List.isEmpty_iff.mp hempty)
    simp [hnone, hnothing]
  · simp [or_and_right, exists_or]

/-- Properties and children that mention a name. -/
def ContentsMention (name : String) (x : List Member × List Elem) : Prop :=
  (∃ member ∈ x.1, member.Mentions name) ∨ ∃ elem ∈ x.2, elem.expr.Mentions name

theorem contentsMention_append {x y : List Member × List Elem} {elems : List Elem} :
    ContentsMention name (x.1 ++ y.1, elems ++ x.2 ++ y.2) ↔
      (∃ elem ∈ elems, elem.expr.Mentions name) ∨ ContentsMention name x ∨ ContentsMention name y := by
  simp only [ContentsMention, List.mem_append, or_and_right, exists_or, or_assoc, or_comm, or_left_comm]

theorem bodyContents_tells (hname : IsComponentName name) (hrender : TellingRenderer root name render)
    (hscripts : SoundScripts root) (h : ∀ n ∈ nodes, Node.Within root n) :
    (bodyContents render nodes).Tells root name (ContentsMention name (bodyContents render nodes).value) := by
  unfold bodyContents
  split
  · refine .congr (.map (configurableSequence_tells hname hrender hscripts h) _) ?_
    simp [ContentsMention, Rendered.value_bind, Rendered.value_pure, Elem.expr]
  · rename_i paragraph hsole
    have hparagraph := h paragraph (soleParagraph?_mem hsole)
    refine .congr (.bind (sequenceParts_tells hname hrender hscripts true fun n hn => h n (List.mem_filter.mp hn).1)
      (.map (inlineElems_tells hrender fun n hn => hparagraph.child hn) _)) ?_
    -- what stands besides the paragraph are attribute lines
    rw [mentions_parts, attributeParts_elems fun n hn => (List.mem_filter.mp hn).2]
    simp [ContentsMention, Rendered.value_bind, Rendered.value_pure]

theorem holeContents_tells (hname : IsComponentName name) (hrender : TellingRenderer root name render)
    (hscripts : SoundScripts root) (h : Node.Within root n) :
    (holeContents render n).Tells root name (ContentsMention name (holeContents render n).value) := by
  unfold holeContents
  split
  · rename_i nodes hnodes
    exact bodyContents_tells hname hrender hscripts (hostedSequence?_within h hnodes)
  · exact .congr (.pure _) (by simp [ContentsMention, Rendered.value_pure, Elem.expr])

/-- What a part that may be missing contributes to a component. -/
def partContents (part : Option Node) (f : Node → Rendered (List Member × List Elem)) :
    Rendered (List Member × List Elem) :=
  match part with
  | some n => f n
  | none => pure ([], [])

theorem partContents_tells (part : Option Node) (f : Node → Rendered (List Member × List Elem))
    (h : ∀ n, part = some n → (f n).Tells root name (ContentsMention name (f n).value)) :
    (partContents part f).Tells root name (ContentsMention name (partContents part f).value) := by
  cases part with
  | none => exact .congr (.pure _) (by simp [ContentsMention, partContents, Rendered.value_pure])
  | some n => exact h n rfl

/-- The contents of a component, part by part. -/
theorem componentContents_eq (render : Renderer) (c : Command) : componentContents render c = (do
    let line ← optionally c.lineContent fun n => inlineElems render n.children
    let blocks ← Rendered.forAll (fun block => inlineElems render (blockContents block)) c.contentBlocks
    let hole ← partContents c.hole (holeContents render)
    let body ← partContents c.body fun n => bodyContents render (significant n)
    return (hole.1 ++ body.1, line ++ blocks.flatten ++ (c.verbatim.map fun text => Elem.item (.str text)).toList ++
      hole.2 ++ body.2)) := by
  unfold componentContents partContents
  cases c.hole <;> cases c.body <;> rfl

theorem mentions_flatten {blocks : List (List Elem)} : (∃ elem ∈ blocks.flatten, elem.expr.Mentions name) ↔
    ∃ elems ∈ blocks, ∃ elem ∈ elems, elem.expr.Mentions name := by
  simp only [List.mem_flatten]
  aesop

theorem componentContents_tells (hname : IsComponentName name) (hrender : TellingRenderer root name render)
    (hscripts : SoundScripts root) (h : c.Within root) :
    (componentContents render c).Tells root name (ContentsMention name (componentContents render c).value) := by
  have hline : (optionally c.lineContent fun n => inlineElems render n.children).Tells root name
      (∃ elem ∈ (optionally c.lineContent fun n => inlineElems render n.children).value, elem.expr.Mentions name) := by
    unfold optionally
    split
    · rename_i line hcontent
      exact inlineElems_tells hrender fun m hm => (h.lineContent line hcontent).child hm
    · exact .congr (.pure _) (by simp [Rendered.value_pure])
  have hverbatim : ¬ ∃ elem ∈ (c.verbatim.map fun text => Elem.item (.str text)).toList, elem.expr.Mentions name := by
    cases c.verbatim <;> simp [Elem.expr]
  have hhole := partContents_tells c.hole (holeContents render)
    fun hole hhole => holeContents_tells hname hrender hscripts (h.hole hole hhole)
  have hbody := partContents_tells c.body (fun n => bodyContents render (significant n)) fun body hbody =>
    bodyContents_tells hname hrender hscripts (within_picked (h.body body hbody) (significant_subset body))
  rw [componentContents_eq]
  refine .congr (.bind hline (.bind (blocks_tells hrender h.contentBlocks) (.bind hhole (.map hbody _)))) ?_
  rw [Rendered.value_bind, Rendered.value_bind, Rendered.value_bind, Rendered.value_bind, Rendered.value_pure,
    contentsMention_append]
  simp only [List.mem_append, or_and_right, exists_or, hverbatim, or_false, mentions_flatten, or_assoc]

theorem component_tells (hname : IsComponentName name) (hrender : TellingRenderer root name render)
    (hscripts : SoundScripts root) (h : c.Within root) :
    (component settings render c).Tells root name ((component settings render c).value.Mentions name) := by
  -- what is behind the name of the component
  have hrest : ∀ (x : Rendered Expr) (isBlock : Expr → List Member), x.Tells root name (x.value.Mentions name) →
      (∀ tag, ¬ ∃ member ∈ isBlock tag, member.Mentions name) → ∀ y, y = (x >>= fun tag => do
        let listed ← listedMembers render c
        let contents ← componentContents render c
        return Expr.element tag (.object (isBlock tag ++ listed ++ contents.1)) contents.2) →
      y.Tells root name (y.value.Mentions name) := by
    rintro x isBlock hx hisBlock _ rfl
    refine .congr (.bind hx (.bind (listedMembers_tells hname hrender hscripts h)
      (.map (componentContents_tells hname hrender hscripts h) _))) ?_
    simp only [Rendered.value_bind, Rendered.value_pure, mentions_element hname, mentions_object, List.mem_append,
      or_and_right, exists_or, hisBlock, false_or, ContentsMention, or_assoc]
  have hisBlock : ∀ told : Bool, ¬ ∃ member ∈ if told then [] else
      [Member.pair "block" (.bool (c.kind == .blockComponent))], member.Mentions name := by
    intro told
    cases told <;> simp
  unfold component
  dsimp only
  split
  · split
    · exact hrest _ _ (.congr (.pure _) (by simp [Rendered.value_pure])) (fun _ => hisBlock _) _ rfl
    · exact hrest _ _ (.refer _) (fun _ => hisBlock _) _ rfl
  · exact hrest _ _ (target_tells hname hrender hscripts h) (fun _ => hisBlock _) _ rfl

/-- **Commands tell the names that they mention.** -/
theorem command_tells (hname : IsComponentName name) (hrender : TellingRenderer root name render)
    (hscripts : SoundScripts root) (h : c.Within root) :
    (command settings render c).Tells root name ((command settings render c).value.Mentions name) := by
  unfold command
  split
  · exact reference_tells hname hrender hscripts h
  · exact interpolation_tells hname hrender hscripts h
  · exact component_tells hname hrender hscripts h

/-! ## Blocks -/

theorem not_mentions_taskBox (hname : IsComponentName name) (done : Bool) : ¬ (taskBox done).Mentions name := by
  simp [taskBox, mentions_element hname]

theorem item_tells (hname : IsComponentName name) (hrender : TellingRenderer root name render)
    (hscripts : SoundScripts root) (h : Node.Within root n) :
    (item render n).Tells root name ((item render n).value.expr.Mentions name) := by
  unfold item
  split
  · rename_i task blocks hview
    refine .congr (.map (plainSequence_tells hname hrender hscripts (view?_within h hview)) _) ?_
    rw [Rendered.value_bind, Rendered.value_pure, Elem.expr, mentions_located, mentions_tag hname]
    cases task <;> simp [Elem.expr, not_mentions_taskBox hname]
  · exact .congr (.pure _) (by simp [Rendered.value_pure, Elem.expr])

/-- A digit does not start a word. -/
theorem isWordStart_digit {d : Char} (h : d.isDigit = true) : isWordStart d = false := by
  have hall : ∀ k < 10, isWordStart (Char.ofNat (48 + k)) = false := by decide +kernel
  have hd : 48 ≤ d.toNat ∧ d.toNat ≤ 57 := by
    simp only [Char.isDigit, ge_iff_le, Bool.and_eq_true, decide_eq_true_eq, UInt32.le_iff_toNat_le] at h
    exact h
  have hchar := hall (d.toNat - 48) (by omega)
  rwa [show 48 + (d.toNat - 48) = d.toNat by omega, Char.ofNat_toNat] at hchar

/-- A number is no name. -/
theorem not_mentions_number (hname : IsComponentName name) (number : Nat) :
    ¬ Code.Mentions name [.text (toString number) none] := by
  have hword : Text.trim (toString number).toList ≠ name.toList := by
    refine hname.ne fun d hd => isWordStart_digit ?_
    have hmem : d ∈ (toString number).toList := by
      have htrim := List.mem_of_head? hd
      rw [Text.trim, Text.trimEnd, List.mem_reverse] at htrim
      have hstart := List.mem_reverse.mp ((List.dropWhile_suffix _).subset htrim)
      exact (List.dropWhile_suffix _).subset hstart
    exact Nat.isDigit_of_mem_toDigits (by decide) (by decide) (Nat.toList_repr ▸ hmem)
  rintro ((⟨-, htrim⟩ | hnone) | ⟨e, he, -⟩)
  · exact hword htrim
  · exact hnone
  · exact List.not_mem_nil he

theorem list_tells (hname : IsComponentName name) (hrender : TellingRenderer root name render)
    (hscripts : SoundScripts root) (ordered : Bool) (first : Option Nat) (h : ∀ n ∈ nodes, Node.Within root n) :
    (list render ordered first nodes).Tells root name ((list render ordered first nodes).value.Mentions name) := by
  have hitems := Rendered.Tells.forAll (q := fun elem : Elem => elem.expr.Mentions name)
    fun n hn => item_tells hname hrender hscripts (h n hn)
  refine .congr (.map hitems _) ?_
  unfold list
  simp only [Rendered.value_bind, Rendered.value_pure, mentions_element hname, mentions_object, not_mentions_str,
    false_or]
  -- the number of the first item is no name
  refine (or_iff_right ?_).symm
  split
  · split
    · simp
    · simp only [List.mem_singleton, exists_eq_left, mentions_pair, mentions_code]
      exact not_mentions_number hname _
  · simp

theorem cells_tells (hname : IsComponentName name) (hrender : TellingRenderer root name render) (tag : String)
    {aligns : List (Option Align)} (h : ∀ n ∈ nodes, Node.Within root n) :
    (cells render tag aligns nodes).Tells root name
      (∃ elem ∈ (cells render tag aligns nodes).value, elem.expr.Mentions name) := by
  induction nodes generalizing aligns with
  | nil => exact .congr (.pure _) (by simp [cells, Rendered.value_pure])
  | cons n nodes ih =>
      have hcell := inlineElems_tells hrender fun m hm => (h n List.mem_cons_self).child hm
      have hothers := @ih aligns.tail fun m hm => h m (List.mem_cons_of_mem n hm)
      have halign : ¬ ∃ member ∈ (aligns.head?.join.map fun align => Member.pair "align" (.str align.name)).toList,
          member.Mentions name := by
        cases aligns.head?.join <;> simp
      refine .congr (.bind hcell (.map hothers _)) ?_
      simp only [cells, Rendered.value_bind, Rendered.value_pure, List.exists_mem_cons_iff, Elem.expr,
        mentions_element hname, mentions_object, halign, not_mentions_str, false_or]

theorem rows_tells (hname : IsComponentName name) (hrender : TellingRenderer root name render) (tag : String)
    (aligns : List (Option Align)) (h : ∀ n ∈ nodes, Node.Within root n) :
    (Rendered.forAll (row render tag aligns) nodes).Tells root name
      (∃ elem ∈ (Rendered.forAll (row render tag aligns) nodes).value, elem.expr.Mentions name) := by
  refine .forAll (q := fun elem : Elem => elem.expr.Mentions name) fun n hn => ?_
  refine .congr (.map (cells_tells hname hrender tag (within_picked (h n hn) List.filter_sublist.subset)) _) ?_
  rw [row, Rendered.value_bind, Rendered.value_pure, Elem.expr, mentions_located, mentions_tag hname]

theorem table_tells (hname : IsComponentName name) (hrender : TellingRenderer root name render) {header : Option Node}
    {rows : List Node} (aligns : List (Option Align)) (h : ∀ n ∈ header.toList ++ rows, Node.Within root n) :
    (table render header rows aligns).Tells root name ((table render header rows aligns).value.Mentions name) := by
  have hhead := rows_tells hname hrender "th" aligns fun n hn => h n (List.mem_append_left _ hn)
  have hbody := rows_tells hname hrender "td" aligns fun n hn => h n (List.mem_append_right _ hn)
  refine .congr (.bind hhead (.map hbody _)) ?_
  simp [table, Rendered.value_bind, Rendered.value_pure, mentions_tag hname, Elem.expr]

theorem listing_tells (hname : IsComponentName name) (language : Option String) (code : String) :
    (listing language code).Tells root name ((listing language code).value.Mentions name) := by
  refine .congr (.map (.refer _) _) ?_
  cases language <;> simp [listing, Rendered.value_bind, Rendered.value_pure, mentions_element hname, Elem.expr]

theorem formula_tells (hname : IsComponentName name) (hrender : TellingRenderer root name render) (display : Bool)
    (h : ∀ n ∈ nodes, Node.Within root n) :
    (formula render display nodes).Tells root name ((formula render display nodes).value.Mentions name) := by
  refine .congr (.bind (.refer _) (.map (inlineElems_tells hrender h) _)) ?_
  simp [formula, Rendered.value_bind, Rendered.value_pure, mentions_element hname]

/-- A result that is told of if it is there. -/
abbrev FormTells (root : Node) (name : String) (x : Rendered (Option Expr)) : Prop :=
  x.Tells root name (∃ e ∈ x.value, e.Mentions name)

theorem formTells_some {x : Rendered Expr} (h : x.Tells root name (x.value.Mentions name)) :
    FormTells root name (some <$> x) :=
  .congr (.map h _) (by rw [show (some <$> x).value = some x.value from rfl]; simp)

theorem formTells_none : FormTells root name (pure none) :=
  .congr (.pure none) (by simp [Rendered.value_pure])

/-- An element around content is told of if its content is. -/
theorem formTells_tag (hname : IsComponentName name) (tag : String) {x : Rendered (List Elem)}
    (h : x.Tells root name (∃ elem ∈ x.value, elem.expr.Mentions name)) :
    FormTells root name (x >>= fun children => pure (some (.tag tag children))) :=
  .congr (.map h _) (by simp [Rendered.value_bind, Rendered.value_pure, mentions_tag hname])

/-- **Blocks tell the names that they mention.** -/
theorem blockForm_tells (hname : IsComponentName name) (hrender : TellingRenderer root name render)
    (hscripts : SoundScripts root) (h : Node.Within root n) : FormTells root name (blockForm settings render n) := by
  unfold blockForm
  split
  · rename_i level nodes hview
    exact formTells_tag hname _ (inlineElems_tells hrender (view?_within h hview))
  · rename_i ordered first items hview
    exact formTells_some (list_tells hname hrender hscripts ordered first (view?_within h hview))
  · rename_i blocks hview
    refine .congr (.map (plainSequence_tells hname hrender hscripts (view?_within h hview)) _) ?_
    simp [Rendered.value_bind, Rendered.value_pure, mentions_tag hname, Elem.expr]
  · rename_i header rows aligns hview
    exact formTells_some (table_tells hname hrender aligns (view?_within h hview))
  · exact formTells_some (listing_tells hname _ _)
  · rename_i nodes hview
    exact formTells_some (formula_tells hname hrender true (view?_within h hview))
  · rename_i c hview
    split
    · exact formTells_some (command_tells hname hrender hscripts (view?_within h hview))
    · exact formTells_none
  · split
    · exact formTells_tag hname _ (inlineElems_tells hrender fun m hm => h.child hm)
    · refine .congr (.pure _) ?_
      rw [Rendered.value_pure]
      split <;> simp

/-! ## Inline content -/

theorem link_tells (hname : IsComponentName name) (hrender : TellingRenderer root name render) (image : Bool)
    (url : String) (h : ∀ n ∈ nodes, Node.Within root n) :
    (link render image url nodes).Tells root name ((link render image url nodes).value.Mentions name) := by
  unfold link
  split
  · exact .congr (.pure _) (by simp [Rendered.value_pure, mentions_element hname])
  · refine .congr (.map (inlineElems_tells hrender h) _) ?_
    simp [Rendered.value_bind, Rendered.value_pure, mentions_element hname]

theorem not_mentions_plainInline (hname : IsComponentName name) (kind : MarkupKind) (n : Node) :
    ¬ ∃ e ∈ plainInline? kind n, e.Mentions name := by
  unfold plainInline?
  split <;> simp [mentions_element hname, Elem.expr]

/-- **Inline content tells the names that it mentions.** -/
theorem inlineForm_tells (hname : IsComponentName name) (hrender : TellingRenderer root name render)
    (hscripts : SoundScripts root) (h : Node.Within root n) : FormTells root name (inlineForm settings render n) := by
  unfold inlineForm
  split
  · rename_i kind _
    split
    · rename_i nodes hview
      exact formTells_tag hname _ (inlineElems_tells hrender (view?_within h hview))
    · rename_i image url nodes hview
      exact formTells_some (link_tells hname hrender image url (view?_within h hview))
    · rename_i nodes hview
      exact formTells_some (formula_tells hname hrender false (view?_within h hview))
    · rename_i c hview
      split
      · exact formTells_none
      · exact formTells_some (command_tells hname hrender hscripts (view?_within h hview))
    · exact .congr (.pure _) (iff_of_false id (not_mentions_plainInline hname kind n))
  · exact formTells_none

/-! ## Nodes and documents -/

/-- **Nodes tell the names that they mention**, by induction on the height up to which they are rendered. -/
theorem renderNode_tells (hname : IsComponentName name) (hscripts : SoundScripts root) (settings : Settings)
    (height : Nat) : TellingRenderer root name (renderNode settings height) := by
  induction height with
  | zero => exact fun _ _ _ => formTells_none
  | succ height ih =>
      intro role n hn
      have hplaced : ∀ {x : Rendered (Option Expr)}, FormTells root name x →
          FormTells root name (x >>= fun e? => pure (e?.map (·.located n.start))) := by
        intro x hx
        refine .congr (.map hx _) ?_
        rw [Rendered.value_bind, Rendered.value_pure]
        cases x.value <;> simp
      cases role with
      | block => exact hplaced (blockForm_tells hname ih hscripts hn)
      | inline => exact hplaced (inlineForm_tells hname ih hscripts hn)

/-- **A document tells the names that its properties and its blocks mention.** -/
theorem renderDocument_tells (hname : IsComponentName name) (hscripts : SoundScripts root) (settings : Settings)
    (height : Nat) (h : ∀ n ∈ nodes, Node.Within root n) :
    (renderDocument settings height nodes).Tells root name
      ((∃ member ∈ (renderDocument settings height nodes).value.1, member.Mentions name) ∨
        (renderDocument settings height nodes).value.2.Mentions name) :=
  configurableSequence_tells hname (renderNode_tells hname hscripts settings height) hscripts h

end ComponentMarkup.Render
