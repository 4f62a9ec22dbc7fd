import ComponentMarkup.Proofs.Render.ScriptMentions

/-!
# Scripts scope what follows

The array of a sequence is nested: what stands behind a script is an array of its own, inside the scope of the script
and spread in its place.  Read in place, the array has the blocks of the sequence in order, and every block is in the
scopes of just those scripts before it that have statements of their own.  Imports and exports are no such
statements.

* `ReadsInPlace` — what stands in an array in which scopes;
* `blocksInScopes` — the blocks of a sequence with the scripts before them;
* `nestParts_reads` — nesting the parts of a sequence puts every block into its scopes;
* `sequences_in_scopes` — what the two kinds of sequences give, attribute lines and problems included.
-/

namespace ComponentMarkup.Render

open ComponentMarkup.Tree ComponentMarkup.Document ComponentMarkup.Program

/-! ## Arrays read in place -/

/-- The statements of a script, and where the script starts. -/
structure Scope where
  /-- The statements. -/
  statements : List Code
  /-- The start of the script. -/
  origin : Nat

/-- What stands in an array if all that is spread is read in its place, in order, and in which scopes, the outermost
first.  Nothing but arrays in scopes may be spread. -/
inductive ReadsInPlace : List Elem → List (List Scope × Expr) → Prop where
  | nil : ReadsInPlace [] []
  | item {e : Expr} {elems : List Elem} {read : List (List Scope × Expr)} (rest : ReadsInPlace elems read) :
      ReadsInPlace (.item e :: elems) (([], e) :: read)
  | scope {scope : Scope} {inner elems : List Elem} {inside read : List (List Scope × Expr)}
      (body : ReadsInPlace inner inside) (rest : ReadsInPlace elems read) :
      ReadsInPlace
        (.spread (.mk (some scope.origin) (.scope scope.statements (.mk none (.array inner)))) :: elems)
        (inside.map (Prod.map (scope :: ·) id) ++ read)

/-! ## What the nodes of a sequence contribute -/

section

variable (render : Renderer)

/-- The statements that a script leaves in its place: all but imports and exports. -/
def stayingStatements (body : Option Node) : List Node :=
  match body.bind Node.hostedRoot? with
  | none => []
  | some root => root.children.filter fun n =>
      !n.kind.isTrivia && !n.isScript .semicolon && !n.isScript .importDecl && !n.isScript .exportDecl

/-- The scope of a script, if it leaves statements in its place. -/
def scope? (n : Node) : Option Scope :=
  match view? n with
  | some (.script body) =>
    match stayingStatements body with
    | [] => none
    | statements => some ⟨statements.map fun statement => Code.trimEnd (copyTree render statement []).value, n.start⟩
  | _ => none

/-- What a block is rendered as, if it is rendered.  Attribute lines and scripts are no blocks. -/
def blockExpr? (n : Node) : Option Expr :=
  match view? n with
  | some (.attributeLine _ _) => none
  | some (.script _) => none
  | _ => (render .block n).value

/-- The member of an attribute line. -/
def attribute? (n : Node) : Option Member :=
  match view? n with
  | some (.attributeLine key value) => some (attributeMember render n.start key value).value
  | _ => none

/-- The problem of an attribute line that has nothing to configure. -/
def uselessAttribute (n : Node) (key : String) : Fault :=
  ⟨n.span, "attribute `" ++ key ++ "` has nothing to configure",
    ["attributes configure the enclosing component or the document"]⟩

/-- What is wrong with a node of a sequence. -/
def problemsOf (configurable : Bool) (n : Node) : List Fault :=
  match view? n with
  | some (.attributeLine key value) =>
    if configurable then (attributeMember render n.start key value).needs.problems else [uselessAttribute n key]
  | some (.script body) => (scriptStatements render body).needs.problems
  | _ => (render .block n).needs.problems

/-- The blocks among nodes, in order, each in the scopes of the scripts before it: of those that come before all of
the nodes, and of those among them. -/
def blocksInScopes (before : List Node) : List Node → List (List Scope × Expr)
  | [] => []
  | n :: after =>
    ((blockExpr? render n).map fun e => (before.filterMap (scope? render), e)).toList ++
      blocksInScopes (before ++ [n]) after

end

variable {render : Renderer} {configurable : Bool}

/-- A statement stays where it is unless it is an import or an export. -/
theorem statement_value (n : Node) : (statement render n).value =
    if n.isScript .importDecl || n.isScript .exportDecl then none
    else some (Code.trimEnd (copyTree render n []).value) := by
  unfold statement
  rw [Rendered.value_bind]
  cases himport : n.isScript .importDecl with
  | true => rfl
  | false =>
      cases hexport : n.isScript .exportDecl with
      | true => rfl
      | false => rfl

/-- The statements of a script are those that it leaves in its place. -/
theorem scriptStatements_value (body : Option Node) : (scriptStatements render body).value =
    (stayingStatements body).map fun n => Code.trimEnd (copyTree render n []).value := by
  rcases body with _ | body
  · rfl
  cases hroot : body.hostedRoot? with
  | none => simp only [scriptStatements, stayingStatements, Option.bind_some, hroot, Rendered.value_bind,
      Rendered.value_pure, List.map_nil]
  | some root =>
      simp only [scriptStatements, stayingStatements, Option.bind_some, hroot, Rendered.value_bind,
        Rendered.value_pure, Rendered.value_forAll]
      induction root.children with
      | nil => rfl
      | cons n nodes ih =>
          cases himport : n.isScript .importDecl <;> cases hexport : n.isScript .exportDecl <;>
            cases hkept : !n.kind.isTrivia && !n.isScript .semicolon <;>
            simp_all [statement_value]

/-- A node of a sequence contributes a block, a scope or a property, or nothing. -/
theorem partOf_cases (render : Renderer) (configurable : Bool) (n : Node) :
    (∃ e, blockExpr? render n = some e ∧ scope? render n = none ∧
      (partOf render configurable n).value = some (.block e)) ∨
    (∃ scope, blockExpr? render n = none ∧ scope? render n = some scope ∧
      (partOf render configurable n).value = some (.scope scope.statements scope.origin)) ∨
    (blockExpr? render n = none ∧ scope? render n = none ∧
      ((partOf render configurable n).value = none ∨
        ∃ member, (partOf render configurable n).value = some (.property member))) := by
  unfold partOf blockExpr? scope?
  have hrendered (e? : Option Expr) : (∃ e, e? = some e ∧ (none : Option Scope) = none ∧
      e?.map Part.block = some (.block e)) ∨ (∃ scope : Scope, e? = none ∧ none = some scope ∧
        e?.map Part.block = some (.scope scope.statements scope.origin)) ∨
      (e? = none ∧ (none : Option Scope) = none ∧
        (e?.map Part.block = none ∨ ∃ member, e?.map Part.block = some (.property member))) := by
    cases e? with
    | some e => exact .inl ⟨e, rfl, rfl, rfl⟩
    | none => exact .inr (.inr ⟨rfl, rfl, .inl rfl⟩)
  rcases view? n with _ | view
  · exact hrendered _
  cases view with
  | attributeLine key value =>
      refine .inr (.inr ⟨rfl, rfl, ?_⟩)
      cases configurable with
      | true => exact .inr ⟨_, rfl⟩
      | false => exact .inl rfl
  | script body =>
      dsimp only
      rw [Rendered.value_bind, Rendered.value_pure, scriptStatements_value]
      cases stayingStatements body with
      | nil => exact .inr (.inr ⟨rfl, rfl, .inl rfl⟩)
      | cons statement statements => exact .inr (.inl ⟨⟨_, n.start⟩, rfl, rfl, rfl⟩)
  | _ => exact hrendered _

theorem sequenceParts_cons (n : Node) (nodes : List Node) :
    (sequenceParts render configurable (n :: nodes)).value =
      (partOf render configurable n).value.toList ++ (sequenceParts render configurable nodes).value := by
  simp only [sequenceParts, Rendered.value_bind, Rendered.value_pure, Rendered.value_forAll, List.map_cons]
  cases (partOf render configurable n).value <;> rfl

/-- **Nesting puts every block into its scopes.**  The scopes of scripts in front of all the nodes would be around
all of their blocks. -/
theorem nestParts_reads (render : Renderer) (configurable : Bool) (nodes : List Node) :
    ∃ read, ReadsInPlace (nestParts (sequenceParts render configurable nodes).value) read ∧
      ∀ before, blocksInScopes render before nodes =
        read.map (Prod.map (before.filterMap (scope? render) ++ ·) id) := by
  induction nodes with
  | nil => exact ⟨[], .nil, fun before => rfl⟩
  | cons n nodes ih =>
      obtain ⟨read, hread, hblocks⟩ := ih
      rw [sequenceParts_cons]
      rcases partOf_cases render configurable n with
        ⟨e, hblock, hscope, hpart⟩ | ⟨scope, hblock, hscope, hpart⟩ | ⟨hblock, hscope, hpart⟩
      · refine ⟨([], e) :: read, ?_, fun before => ?_⟩
        · rw [hpart]
          exact .item hread
        · rw [blocksInScopes, hblock, hblocks]
          simp [hscope]
      · refine ⟨read.map (Prod.map (scope :: ·) id) ++ [], ?_, fun before => ?_⟩
        · rw [hpart]
          exact .scope hread .nil
        · rw [blocksInScopes, hblock, hblocks]
          simp [hscope, Prod.map]
      · refine ⟨read, ?_, fun before => ?_⟩
        · rcases hpart with hpart | ⟨member, hpart⟩
          · rwa [hpart]
          · rwa [hpart]
        · rw [blocksInScopes, hblock, hblocks]
          simp [hscope]

/-! ## Attribute lines and problems -/

/-- Only attribute lines contribute properties. -/
theorem partOf_properties (render : Renderer) (n : Node) :
    partProperties (partOf render true n).value.toList = (attribute? render n).toList := by
  unfold partOf attribute?
  have hrendered (e? : Option Expr) : partProperties (e?.map Part.block).toList = [] := by
    cases e? <;> rfl
  rcases view? n with _ | view
  · exact hrendered _
  cases view with
  | attributeLine key value => rfl
  | script body =>
      dsimp only
      rw [Rendered.value_bind, Rendered.value_pure]
      split <;> rfl
  | _ => exact hrendered _

/-- The properties of a sequence that can be configured are its attribute lines. -/
theorem partProperties_eq (nodes : List Node) :
    partProperties (sequenceParts render true nodes).value = nodes.filterMap (attribute? render) := by
  induction nodes with
  | nil => rfl
  | cons n nodes ih =>
      have hfirst := partOf_properties render n
      rw [partProperties] at ih hfirst
      rw [sequenceParts_cons, partProperties, List.filterMap_append, ih, hfirst, List.filterMap_cons]
      cases attribute? render n <;> rfl

theorem Rendered.problems_bind {α β : Type} (x : Rendered α) (f : α → Rendered β) :
    (x >>= f).needs.problems = x.needs.problems ++ (f x.value).needs.problems :=
  rfl

theorem Rendered.problems_pure {α : Type} (a : α) : (pure a : Rendered α).needs.problems = [] :=
  rfl

/-- Rendering a list finds what is wrong with its members, in order. -/
theorem Rendered.problems_forAll {α β : Type} (f : α → Rendered β) (as : List α) :
    (Rendered.forAll f as).needs.problems = as.flatMap fun a => (f a).needs.problems := by
  induction as with
  | nil => rfl
  | cons a as ih =>
      rw [Rendered.forAll, Rendered.problems_bind, Rendered.problems_bind, Rendered.problems_pure, ih,
        List.append_nil, List.flatMap_cons]

/-- What is wrong with a node is found where its part is rendered. -/
theorem partOf_problems (configurable : Bool) (n : Node) :
    (partOf render configurable n).needs.problems = problemsOf render configurable n := by
  unfold partOf problemsOf
  rcases view? n with _ | view
  · exact List.append_nil _
  cases view with
  | attributeLine key value =>
      cases configurable with
      | true => exact List.append_nil _
      | false => rfl
  | _ => exact List.append_nil _

theorem sequenceParts_problems (configurable : Bool) (nodes : List Node) :
    (sequenceParts render configurable nodes).needs.problems = nodes.flatMap (problemsOf render configurable) := by
  rw [sequenceParts, Rendered.problems_bind, Rendered.problems_forAll, Rendered.problems_pure, List.append_nil]
  simp only [partOf_problems]

/-- **Scripts scope what follows.**  Whatever the nodes of a sequence and however they are rendered, the array of the
sequence, read in place, has what its blocks are rendered as, each once and in order, and every block is in the scopes
of just those scripts before it that leave statements in their place, the last of them innermost.  The attribute lines
of a sequence that can be configured are its properties, each once and in order.  In other sequences every attribute
line is one problem, reported in order with what is wrong with the other nodes. -/
theorem sequences_in_scopes (render : Renderer) (nodes : List Node) :
    (∃ elems, (configurableSequence render nodes).value =
        (nodes.filterMap (attribute? render), .mk none (.array elems)) ∧
      ReadsInPlace elems (blocksInScopes render [] nodes)) ∧
    (∃ elems, (plainSequence render nodes).value = .mk none (.array elems) ∧
      ReadsInPlace elems (blocksInScopes render [] nodes)) ∧
    (configurableSequence render nodes).needs.problems = nodes.flatMap (problemsOf render true) ∧
    (plainSequence render nodes).needs.problems = nodes.flatMap (problemsOf render false) := by
  have hreads : ∀ configurable,
      ReadsInPlace (nestParts (sequenceParts render configurable nodes).value) (blocksInScopes render [] nodes) := by
    intro configurable
    obtain ⟨read, hread, hblocks⟩ := nestParts_reads render configurable nodes
    have hread_eq : blocksInScopes render [] nodes = read := (hblocks []).trans (List.map_id read)
    rwa [hread_eq]
  refine ⟨⟨_, ?_, hreads true⟩, ⟨_, rfl, hreads false⟩, ?_, ?_⟩
  · rw [configurableSequence, Rendered.value_bind, Rendered.value_pure, partProperties_eq]
    rfl
  · rw [configurableSequence, Rendered.problems_bind, sequenceParts_problems, Rendered.problems_pure, List.append_nil]
  · rw [plainSequence, Rendered.problems_bind, sequenceParts_problems, Rendered.problems_pure, List.append_nil]

end ComponentMarkup.Render
