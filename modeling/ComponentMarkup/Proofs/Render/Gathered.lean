import ComponentMarkup.Proofs.Render.ScriptOrigins

/-!
# Where what is gathered comes from

Whatever rendering gathers has a node of the document behind it.  A problem has the stretch of the node that it is
about.  An import is the text of an import declaration, and all names that the declaration binds are known as bound.
An export is the text of an export declaration, and all names that stand in it are known as referred to.  This holds
of nothing, and of two parts together if it holds of each, so it holds of every rendered document.

* `Needs.Accounted` — what was gathered has nodes behind it;
* `statement_accounted`, `problemValue_accounted` — statements and problems of commands;
* `renderNode_accounted`, `renderDocument_accounted` — nodes and documents.
-/

namespace ComponentMarkup.Render

open ComponentMarkup.Text ComponentMarkup.Tree ComponentMarkup.Document ComponentMarkup.Program

variable {root n : Node} {render : Renderer} {settings : Settings} {c : Command} {nodes : List Node}

/-- What was gathered has nodes of a tree behind it. -/
structure Needs.Accounted (root : Node) (needs : Needs) : Prop where
  problems : ∀ fault ∈ needs.problems, ∃ n, Node.Within root n ∧ fault.span = n.span
  imports : ∀ code ∈ needs.imports, ∃ decl render, Node.Within root decl ∧ decl.isScript .importDecl ∧
    code = Code.trimEnd (copyTree render decl []).value ∧ (importNeeds decl).bound ⊆ needs.bound
  exports : ∀ code ∈ needs.exports, ∃ decl render, Node.Within root decl ∧ decl.isScript .exportDecl ∧
    code = Code.trimEnd (copyTree render decl []).value ∧ (copyTree render decl []).needs.names ⊆ needs.names

theorem Needs.Accounted.empty : Needs.Accounted root {} :=
  ⟨fun _ h => absurd h List.not_mem_nil, fun _ h => absurd h List.not_mem_nil, fun _ h => absurd h List.not_mem_nil⟩

theorem Needs.Accounted.append {a b : Needs} (ha : a.Accounted root) (hb : b.Accounted root) :
    (a ++ b).Accounted root where
  problems fault hfault := (List.mem_append.mp hfault).elim (ha.problems fault) (hb.problems fault)
  imports code hcode := by
    rcases List.mem_append.mp hcode with hcode | hcode
    · obtain ⟨decl, render, hdecl, hkind, htext, hbound⟩ := ha.imports code hcode
      exact ⟨decl, render, hdecl, hkind, htext, fun _ h => List.mem_append_left _ (hbound h)⟩
    · obtain ⟨decl, render, hdecl, hkind, htext, hbound⟩ := hb.imports code hcode
      exact ⟨decl, render, hdecl, hkind, htext, fun _ h => List.mem_append_right _ (hbound h)⟩
  exports code hcode := by
    rcases List.mem_append.mp hcode with hcode | hcode
    · obtain ⟨decl, render, hdecl, hkind, htext, hnames⟩ := ha.exports code hcode
      exact ⟨decl, render, hdecl, hkind, htext, fun _ h => List.mem_append_left _ (hnames h)⟩
    · obtain ⟨decl, render, hdecl, hkind, htext, hnames⟩ := hb.exports code hcode
      exact ⟨decl, render, hdecl, hkind, htext, fun _ h => List.mem_append_right _ (hnames h)⟩

/-- Names alone need no nodes. -/
theorem Needs.Accounted.names (names : List String) : Needs.Accounted root { names := names } :=
  ⟨fun _ h => absurd h List.not_mem_nil, fun _ h => absurd h List.not_mem_nil, fun _ h => absurd h List.not_mem_nil⟩

/-- A result of rendering for which only accounted things were gathered. -/
abbrev Rendered.Accounted {α : Type} (root : Node) (x : Rendered α) : Prop :=
  x.needs.Accounted root

namespace Rendered.Accounted

variable {α β : Type} {x : Rendered α} {f : α → Rendered β}

theorem pure (a : α) : (Pure.pure a : Rendered α).Accounted root :=
  Needs.Accounted.empty

theorem bind (h : x.Accounted root) (hf : ∀ a, (f a).Accounted root) : (x >>= f).Accounted root :=
  Needs.Accounted.append h (hf x.value)

theorem map (g : α → β) (h : x.Accounted root) : (g <$> x).Accounted root :=
  h.bind fun a => .pure (g a)

theorem refer (name : String) : (Rendered.refer name).Accounted root :=
  Needs.Accounted.names [name]

/-- A problem is accounted for by the node that it is about. -/
theorem report {fault : Fault} (h : Node.Within root n) (hspan : fault.span = n.span) :
    (Rendered.report fault).Accounted root where
  problems _ hfault := ⟨n, h, (congrArg Fault.span (List.mem_singleton.mp hfault)).trans hspan⟩
  imports _ hcode := absurd hcode List.not_mem_nil
  exports _ hcode := absurd hcode List.not_mem_nil

theorem forAll {as : List α} (h : ∀ a ∈ as, (f a).Accounted root) : (Rendered.forAll f as).Accounted root := by
  induction as with
  | nil => exact pure _
  | cons a as ih =>
      exact (h a List.mem_cons_self).bind fun _ =>
        (ih fun other hother => h other (List.mem_cons_of_mem a hother)).bind fun _ => .pure _

end Rendered.Accounted

/-- A rule for nodes that gathers only what the nodes of a tree account for. -/
def AccountedRenderer (root : Node) (render : Renderer) : Prop :=
  ∀ role n, Node.Within root n → (render role n).Accounted root

/-! ## Scripts and what is embedded in them -/

theorem copyToken_accounted (kind : Kind) (text : String) (start : Nat) (code : Code) :
    (copyToken kind text start code).Accounted root := by
  unfold copyToken
  split
  · exact .pure _
  · split
    · exact .pure _
    · exact .pure _
    · exact .pure _
    · split
      · exact Rendered.Accounted.bind (Needs.Accounted.names [text]) fun _ => .pure _
      · exact .pure _
    · exact .pure _

theorem inlineExprs_accounted (hrender : AccountedRenderer root render) (h : ∀ n ∈ nodes, Node.Within root n) :
    (inlineExprs render nodes).Accounted root :=
  (Rendered.Accounted.forAll fun n hn => hrender .inline n (h n hn)).bind fun _ => .pure _

theorem inlineElems_accounted (hrender : AccountedRenderer root render) (h : ∀ n ∈ nodes, Node.Within root n) :
    (inlineElems render nodes).Accounted root :=
  (inlineExprs_accounted hrender h).bind fun _ => .pure _

theorem embedded_accounted (hrender : AccountedRenderer root render) (h : Node.Within root n) :
    (embedded render n).Accounted root := by
  unfold embedded
  split
  · exact .pure _
  · rename_i nodes hnodes
    refine (inlineExprs_accounted hrender (hostedSequence?_within h hnodes)).bind fun exprs => ?_
    split <;> exact .pure _

mutual

/-- **Copying a script gathers names and what the commands in it need.** -/
theorem copyTree_accounted (hrender : AccountedRenderer root render) : ∀ (n : Node) (code : Code),
    Node.Within root n → (copyTree render n code).Accounted root
  | .leaf kind text span, code, h => by
      unfold copyTree
      split
      · exact (embedded_accounted hrender h).bind fun _ => .pure _
      · exact copyToken_accounted kind text span.start code
  | .inner kind span host count faulty children, code, h => by
      unfold copyTree
      split
      · exact (embedded_accounted hrender h).bind fun _ => .pure _
      · exact copyTrees_accounted hrender children code fun n hn => h.child hn
  | .fault message hints text span, code, h => by
      unfold copyTree
      exact copyToken_accounted .fault text span.start code

/-- Copying several scripts gathers names and what the commands in them need. -/
theorem copyTrees_accounted (hrender : AccountedRenderer root render) : ∀ (ns : List Node) (code : Code),
    (∀ n ∈ ns, Node.Within root n) → (copyTrees render ns code).Accounted root
  | [], _, _ => .pure _
  | n :: ns, code, h =>
      (copyTree_accounted hrender n code (h n List.mem_cons_self)).bind fun copied =>
        copyTrees_accounted hrender ns copied fun m hm => h m (List.mem_cons_of_mem n hm)

end

/-- What an import binds comes without problems and exports. -/
theorem importNeeds_spec (decl : Node) : (importNeeds decl).problems = [] ∧ (importNeeds decl).exports = [] := by
  unfold importNeeds
  dsimp only
  split <;> exact ⟨rfl, rfl⟩

/-- **Imports and exports are gathered with what they bind and refer to.** -/
theorem statement_accounted (hrender : AccountedRenderer root render) (h : Node.Within root n) :
    (statement render n).Accounted root := by
  have hcopied := copyTree_accounted hrender n [] h
  show Needs.Accounted root ((copyTree render n []).needs ++ _)
  dsimp only
  split
  · rename_i hkind
    obtain ⟨hproblems, hexports⟩ := importNeeds_spec n
    refine hcopied.append (.append ⟨fun fault hfault => ?_, fun code hcode => ?_, fun code hcode => ?_⟩ .empty)
    · exact absurd (hproblems ▸ hfault) List.not_mem_nil
    · obtain rfl := List.mem_singleton.mp hcode
      exact ⟨n, render, h, hkind, rfl, fun _ hname => hname⟩
    · exact absurd (hexports ▸ hcode) List.not_mem_nil
  · split
    · rename_i hkind
      -- the names of an export are gathered where its text is copied
      refine ⟨fun fault hfault => ?_, fun code hcode => ?_, fun code hcode => ?_⟩
      · exact (List.mem_append.mp hfault).elim (hcopied.problems fault) fun hnone => absurd hnone List.not_mem_nil
      · refine (List.mem_append.mp hcode).elim (fun hcode => ?_) fun hnone => absurd hnone List.not_mem_nil
        exact (hcopied.append .empty).imports code (List.mem_append_left _ hcode)
      · rcases List.mem_append.mp hcode with hcode | hcode
        · exact (hcopied.append .empty).exports code (List.mem_append_left _ hcode)
        · obtain rfl := List.mem_singleton.mp hcode
          exact ⟨n, render, h, hkind, rfl, fun _ hname => List.mem_append_left _ hname⟩
    · exact hcopied.append .empty

theorem scriptStatements_accounted (hrender : AccountedRenderer root render) {body : Option Node}
    (h : ∀ host, body = some host → Node.Within root host) : (scriptStatements render body).Accounted root := by
  unfold scriptStatements
  split
  · exact .pure _
  · rename_i host
    have hhost := h host rfl
    split
    · exact (Rendered.Accounted.report hhost rfl).bind fun _ => .pure _
    · rename_i script hroot
      have hscript := hhost.hostedRoot? hroot
      refine (Rendered.Accounted.forAll fun n hn => ?_).bind fun _ => .pure _
      exact statement_accounted hrender (hscript.child (List.mem_filter.mp hn).1)

theorem hostedExpr_accounted (hrender : AccountedRenderer root render) (h : Node.Within root n) :
    (hostedExpr render n).Accounted root := by
  unfold hostedExpr
  split
  · exact .pure _
  · rename_i script hroot
    refine (copyTree_accounted hrender script [] (h.hostedRoot? hroot)).bind fun code => ?_
    dsimp only
    split
    · exact .pure _
    · split <;> exact .pure _

theorem hostedMembers_accounted (hrender : AccountedRenderer root render) (h : Node.Within root n) :
    (hostedMembers render n).Accounted root := by
  unfold hostedMembers
  split
  · exact (Rendered.Accounted.report h rfl).bind fun _ => .pure _
  · rename_i script hroot
    exact (copyTree_accounted hrender script [] (h.hostedRoot? hroot)).bind fun _ => .pure _

/-! ## Sequences -/

theorem partOf_accounted (hrender : AccountedRenderer root render) (configurable : Bool) (h : Node.Within root n) :
    (partOf render configurable n).Accounted root := by
  unfold partOf
  split
  · rename_i key value hview
    have hvalue := view?_within h hview
    unfold attributePart
    split
    · refine Rendered.Accounted.bind ?_ fun _ => .pure _
      unfold attributeMember
      split
      · exact .pure _
      · exact (hostedExpr_accounted hrender (hvalue _ rfl).1).bind fun _ => .pure _
    · exact (Rendered.Accounted.report h rfl).bind fun _ => .pure _
  · rename_i body hview
    have hbody := view?_within h hview
    exact (scriptStatements_accounted hrender fun host hhost => (hbody host hhost).1).bind fun _ => .pure _
  · exact (hrender .block n h).bind fun _ => .pure _

theorem sequenceParts_accounted (hrender : AccountedRenderer root render) (configurable : Bool)
    (h : ∀ n ∈ nodes, Node.Within root n) : (sequenceParts render configurable nodes).Accounted root :=
  (Rendered.Accounted.forAll fun n hn => partOf_accounted hrender configurable (h n hn)).bind fun _ => .pure _

theorem configurableSequence_accounted (hrender : AccountedRenderer root render)
    (h : ∀ n ∈ nodes, Node.Within root n) : (configurableSequence render nodes).Accounted root :=
  (sequenceParts_accounted hrender true h).bind fun _ => .pure _

theorem plainSequence_accounted (hrender : AccountedRenderer root render)
    (h : ∀ n ∈ nodes, Node.Within root n) : (plainSequence render nodes).Accounted root :=
  (sequenceParts_accounted hrender false h).bind fun _ => .pure _

/-! ## Commands -/

theorem problemValue_accounted (h : c.Placed root) (message : String) (hints : List String) :
    (problemValue c message hints).Accounted root := by
  obtain ⟨n, hn, hspan⟩ := h.node
  exact (Rendered.Accounted.report hn hspan.symm).bind fun _ => .pure _

theorem target_accounted (hrender : AccountedRenderer root render) (h : c.Placed root) :
    (target render c).Accounted root := by
  unfold target
  split
  · exact .refer _
  · exact problemValue_accounted h _ _
  · exact (Rendered.Accounted.refer _).bind fun _ => .pure _
  · rename_i expr hname
    refine (hostedExpr_accounted hrender (h.within.name expr hname).1).bind fun e? => ?_
    split
    · exact .pure _
    · exact problemValue_accounted h _ _
  · exact problemValue_accounted h _ _
  · exact .pure _

theorem listedMembers_accounted (hrender : AccountedRenderer root render) (h : c.Placed root) :
    (listedMembers render c).Accounted root := by
  unfold listedMembers
  split
  · exact .pure _
  · rename_i host hhost
    exact hostedMembers_accounted hrender (h.within.properties host hhost).1

theorem reference_accounted (hrender : AccountedRenderer root render) (h : c.Placed root) :
    (reference render c).Accounted root := by
  have hrest : ∀ name, Rendered.Accounted root do
      let component ← Rendered.refer "Ref"
      let members ← listedMembers render c
      return Expr.element component (.object members) [.item name] := fun _ =>
    (Rendered.Accounted.refer _).bind fun _ => (listedMembers_accounted hrender h).bind fun _ => .pure _
  unfold reference
  dsimp only
  split
  · exact (Rendered.Accounted.pure _).bind hrest
  · exact (target_accounted hrender h).bind hrest

theorem blocks_accounted (hrender : AccountedRenderer root render) (h : ∀ block ∈ nodes, Node.Within root block) :
    (Rendered.forAll (fun block => inlineElems render (blockContents block)) nodes).Accounted root :=
  .forAll fun block hblock => inlineElems_accounted hrender (within_picked (h block hblock) (without_subset _ block))

theorem interpolation_accounted (hrender : AccountedRenderer root render) (h : c.Placed root) :
    (interpolation render c).Accounted root :=
  (target_accounted hrender h).bind fun _ => (listedMembers_accounted hrender h).bind fun _ =>
    (blocks_accounted hrender h.within.contentBlocks).bind fun _ => .pure _

theorem bodyContents_accounted (hrender : AccountedRenderer root render) (h : ∀ n ∈ nodes, Node.Within root n) :
    (bodyContents render nodes).Accounted root := by
  unfold bodyContents
  split
  · exact (configurableSequence_accounted hrender h).bind fun _ => .pure _
  · rename_i paragraph hsole
    have hparagraph := h paragraph (soleParagraph?_mem hsole)
    refine (sequenceParts_accounted hrender true fun n hn => h n (List.mem_filter.mp hn).1).bind fun _ => ?_
    exact (inlineElems_accounted hrender fun n hn => hparagraph.child hn).bind fun _ => .pure _

theorem holeContents_accounted (hrender : AccountedRenderer root render) (h : Node.Within root n) :
    (holeContents render n).Accounted root := by
  unfold holeContents
  split
  · rename_i nodes hnodes
    exact bodyContents_accounted hrender (hostedSequence?_within h hnodes)
  · exact .pure _

/-- The contents of a body, with what follows them. -/
theorem body_accounted {α : Type} {next : List Member × List Elem → Rendered α}
    (hrender : AccountedRenderer root render) (h : c.Placed root) (hnext : ∀ body, (next body).Accounted root) :
    Rendered.Accounted root (match c.body with
      | some n => bodyContents render (significant n) >>= next
      | none => pure ([], []) >>= next) := by
  split
  · rename_i body hbody
    exact (bodyContents_accounted hrender
      (within_picked (h.within.body body hbody) (significant_subset body))).bind hnext
  · exact (Rendered.Accounted.pure _).bind hnext

theorem componentContents_accounted (hrender : AccountedRenderer root render) (h : c.Placed root) :
    (componentContents render c).Accounted root := by
  have hline : (optionally c.lineContent fun n => inlineElems render n.children).Accounted root := by
    unfold optionally
    split
    · rename_i line hcontent
      exact inlineElems_accounted hrender fun m hm => (h.within.lineContent line hcontent).child hm
    · exact .pure _
  refine hline.bind fun line => (blocks_accounted hrender h.within.contentBlocks).bind fun blocks => ?_
  dsimp only
  split
  · rename_i hole hhole
    exact (holeContents_accounted hrender (h.within.hole hole hhole)).bind fun _ =>
      body_accounted hrender h fun _ => .pure _
  · exact (Rendered.Accounted.pure _).bind fun _ => body_accounted hrender h fun _ => .pure _

theorem component_accounted (hrender : AccountedRenderer root render) (h : c.Placed root) :
    (component settings render c).Accounted root := by
  have hrest : ∀ name isBlock, Rendered.Accounted root do
      let listed ← listedMembers render c
      let contents ← componentContents render c
      return Expr.element name (.object (isBlock ++ listed ++ contents.1)) contents.2 := fun _ _ =>
    (listedMembers_accounted hrender h).bind fun _ => (componentContents_accounted hrender h).bind fun _ => .pure _
  unfold component
  dsimp only
  split
  · split
    · exact (Rendered.Accounted.pure _).bind fun name => hrest name _
    · exact (Rendered.Accounted.refer _).bind fun name => hrest name _
  · exact (target_accounted hrender h).bind fun name => hrest name _

theorem command_accounted (hrender : AccountedRenderer root render) (h : c.Placed root) :
    (command settings render c).Accounted root := by
  unfold command
  split
  · exact reference_accounted hrender h
  · exact interpolation_accounted hrender h
  · exact component_accounted hrender h

/-! ## Blocks and inline content -/

theorem list_accounted (hrender : AccountedRenderer root render) (ordered : Bool) (first : Option Nat)
    (h : ∀ n ∈ nodes, Node.Within root n) : (list render ordered first nodes).Accounted root := by
  refine (Rendered.Accounted.forAll fun n hn => ?_).bind fun _ => .pure _
  unfold item
  split
  · rename_i task blocks hview
    exact (plainSequence_accounted hrender (view?_within (h n hn) hview)).bind fun _ => .pure _
  · exact .pure _

theorem cells_accounted (hrender : AccountedRenderer root render) (tag : String) {aligns : List (Option Align)}
    (h : ∀ n ∈ nodes, Node.Within root n) : (cells render tag aligns nodes).Accounted root := by
  induction nodes generalizing aligns with
  | nil => exact .pure _
  | cons n nodes ih =>
      refine (inlineElems_accounted hrender fun m hm => (h n List.mem_cons_self).child hm).bind fun _ => ?_
      exact (ih fun m hm => h m (List.mem_cons_of_mem n hm)).bind fun _ => .pure _

theorem rows_accounted (hrender : AccountedRenderer root render) (tag : String) (aligns : List (Option Align))
    (h : ∀ n ∈ nodes, Node.Within root n) :
    (Rendered.forAll (row render tag aligns) nodes).Accounted root :=
  .forAll fun n hn => (cells_accounted hrender tag (within_picked (h n hn) List.filter_sublist.subset)).bind
    fun _ => .pure _

theorem formula_accounted (hrender : AccountedRenderer root render) (display : Bool)
    (h : ∀ n ∈ nodes, Node.Within root n) : (formula render display nodes).Accounted root :=
  (Rendered.Accounted.refer _).bind fun _ => (inlineElems_accounted hrender h).bind fun _ => .pure _

theorem blockForm_accounted (hrender : AccountedRenderer root render) (h : Node.Within root n) :
    (blockForm settings render n).Accounted root := by
  unfold blockForm
  split
  · rename_i level nodes hview
    exact (inlineElems_accounted hrender (view?_within h hview)).bind fun _ => .pure _
  · rename_i ordered first items hview
    exact (list_accounted hrender ordered first (view?_within h hview)).map _
  · rename_i blocks hview
    exact (plainSequence_accounted hrender (view?_within h hview)).bind fun _ => .pure _
  · rename_i header rows aligns hview
    have hrows := view?_within h hview
    refine Rendered.Accounted.map _ ?_
    exact (rows_accounted hrender _ _ fun n hn => hrows n (List.mem_append_left _ hn)).bind fun _ =>
      (rows_accounted hrender _ _ fun n hn => hrows n (List.mem_append_right _ hn)).bind fun _ => .pure _
  · exact Rendered.Accounted.map _ ((Rendered.Accounted.refer _).bind fun _ => .pure _)
  · rename_i nodes hview
    exact (formula_accounted hrender true (view?_within h hview)).map _
  · rename_i c hview
    split
    · exact (command_accounted hrender (view?_placed h hview)).map _
    · exact .pure _
  · split
    · exact (inlineElems_accounted hrender fun m hm => h.child hm).bind fun _ => .pure _
    · exact .pure _

theorem link_accounted (hrender : AccountedRenderer root render) (image : Bool) (url : String)
    (h : ∀ n ∈ nodes, Node.Within root n) : (link render image url nodes).Accounted root := by
  unfold link
  split
  · exact .pure _
  · exact (inlineElems_accounted hrender h).bind fun _ => .pure _

theorem inlineForm_accounted (hrender : AccountedRenderer root render) (h : Node.Within root n) :
    (inlineForm settings render n).Accounted root := by
  unfold inlineForm
  split
  · split
    · rename_i nodes hview
      exact (inlineElems_accounted hrender (view?_within h hview)).bind fun _ => .pure _
    · rename_i image url nodes hview
      exact (link_accounted hrender image url (view?_within h hview)).map _
    · rename_i nodes hview
      exact (formula_accounted hrender false (view?_within h hview)).map _
    · rename_i c hview
      split
      · exact .pure _
      · exact (command_accounted hrender (view?_placed h hview)).map _
    · exact .pure _
  · exact .pure _

/-! ## Documents -/

/-- **Nodes are rendered with accounted needs**, by induction on the height up to which they are rendered. -/
theorem renderNode_accounted (settings : Settings) (height : Nat) :
    AccountedRenderer root (renderNode settings height) := by
  induction height with
  | zero => exact fun role n _ => .pure _
  | succ height ih =>
      intro role n h
      cases role with
      | block => exact (blockForm_accounted ih h).bind fun _ => .pure _
      | inline => exact (inlineForm_accounted ih h).bind fun _ => .pure _

/-- **What is gathered for a document has nodes of its tree behind it.** -/
theorem renderDocument_accounted (settings : Settings) (height : Nat) (h : ∀ n ∈ nodes, Node.Within root n) :
    (renderDocument settings height nodes).needs.Accounted root :=
  configurableSequence_accounted (renderNode_accounted settings height) h

end ComponentMarkup.Render
