import ComponentMarkup.Proofs.Render.Gathered
import ComponentMarkup.Proofs.Render.SourceMaps

/-!
# Components and imported names

A program takes the components that its document uses out of the namespaces of the library.  An import of the
document binds each identifier in it that is not renamed, whether as the default export, as a whole module or between
braces, and all names that are bound so are known.  A component whose name is bound by an import is therefore not
taken out of a namespace; the exception is the component that renders the document, which is always needed.

Names that exported declarations bind are not looked at: `compile_componentNames_exported` is a program that
declares one of them twice.

* `mem_componentNames` — the names that are taken out of namespaces are those of provided components;
* `importNeeds_bound` — the names that an import binds are all known;
* `compile_componentNames` — only the component that renders the document clashes with an import.
-/

namespace ComponentMarkup.Program

open ComponentMarkup.Tree ComponentMarkup.Render

variable {settings : Settings} {needs : Needs}

/-- The names that a program takes out of the namespaces of components. -/
def componentNames (settings : Settings) (needs : Needs) : List String :=
  (usedComponents settings needs).flatMap Prod.snd

/-- The names in groups after a name is added: no name gets lost. -/
theorem mem_addToGroup {groups : List (String × List String)} {key name other : String} :
    other ∈ (addToGroup groups key name).flatMap Prod.snd ↔ other ∈ groups.flatMap Prod.snd ∨ other = name := by
  unfold addToGroup
  split
  · rename_i hany
    obtain ⟨group, hgroup, hkey⟩ := List.any_eq_true.mp hany
    rw [List.mem_flatMap, List.mem_flatMap]
    constructor
    · rintro ⟨g, hg, hother⟩
      obtain ⟨old, hold, rfl⟩ := List.mem_map.mp hg
      split at hother
      · rcases List.mem_append.mp hother with hother | hother
        · exact .inl ⟨old, hold, hother⟩
        · exact .inr (List.mem_singleton.mp hother)
      · exact .inl ⟨old, hold, hother⟩
    · rintro (⟨old, hold, hother⟩ | rfl)
      · refine ⟨_, List.mem_map.mpr ⟨old, hold, rfl⟩, ?_⟩
        split
        · exact List.mem_append_left _ hother
        · exact hother
      · refine ⟨_, List.mem_map.mpr ⟨group, hgroup, rfl⟩, ?_⟩
        rw [if_pos hkey]
        exact List.mem_append_right _ (List.mem_singleton.mpr rfl)
  · rw [List.flatMap_append, List.mem_append, List.flatMap_singleton, List.mem_singleton]

/-- The names in groups after several names are added. -/
theorem mem_addToGroups {entries : List (String × String)} {groups : List (String × List String)} {name : String} :
    name ∈ (entries.foldl (fun groups (name, space) => addToGroup groups space name) groups).flatMap Prod.snd ↔
      name ∈ groups.flatMap Prod.snd ∨ ∃ space, (name, space) ∈ entries := by
  induction entries generalizing groups with
  | nil => simp
  | cons entry entries ih =>
      obtain ⟨first, space⟩ := entry
      rw [List.foldl_cons, ih, mem_addToGroup, or_assoc]
      refine or_congr_right ⟨?_, ?_⟩
      · rintro (rfl | ⟨s, hs⟩)
        · exact ⟨space, List.mem_cons_self⟩
        · exact ⟨s, List.mem_cons_of_mem _ hs⟩
      · rintro ⟨s, hs⟩
        rcases List.mem_cons.mp hs with heq | hs
        · exact .inl (congrArg Prod.fst heq)
        · exact .inr ⟨s, hs⟩

/-- **The names that are taken out of namespaces** are those of the components that a program has to provide. -/
theorem mem_componentNames {name : String} :
    name ∈ componentNames settings needs ↔ isProvided needs name ∧ ∃ space, (name, space) ∈ settings.prelude := by
  unfold componentNames usedComponents
  rw [mem_addToGroups]
  constructor
  · rintro (hnone | ⟨space, hspace⟩)
    · exact absurd hnone List.not_mem_nil
    · obtain ⟨hmem, hprovided⟩ := List.mem_filter.mp hspace
      exact ⟨hprovided, space, hmem⟩
  · rintro ⟨hprovided, space, hmem⟩
    exact .inr ⟨space, List.mem_filter.mpr ⟨hmem, hprovided⟩⟩

/-- The line of a program that takes names out of a namespace. -/
def componentLine (group : String × List String) : String :=
  "const " ++ braced group.2 ++ " = " ++ group.1 ++ ";\n"

/-- Each of the names stands in a line that takes it out of a namespace. -/
theorem componentNames_line {name : String} (h : name ∈ componentNames settings needs) :
    ∃ group before after, name ∈ group.2 ∧ headText settings needs = before ++ componentLine group ++ after := by
  obtain ⟨group, hgroup, hname⟩ := List.mem_flatMap.mp h
  obtain ⟨first, last, hused⟩ := List.append_of_mem hgroup
  have hhead : ∃ head, headText settings needs =
      head ++ String.join ((usedComponents settings needs).map componentLine) := ⟨_, rfl⟩
  obtain ⟨head, hhead⟩ := hhead
  refine ⟨group, head ++ String.join (first.map componentLine), String.join (last.map componentLine), hname, ?_⟩
  rw [hhead, hused, List.map_append, List.map_cons, String.join_append, String.join_cons]
  simp only [String.append_assoc]

end ComponentMarkup.Program

namespace ComponentMarkup.Render

open ComponentMarkup.Tree ComponentMarkup.Document ComponentMarkup.Program

/-! ## What imports bind -/

/-- The tokens of a declaration. -/
def declTokens (decl : Node) : List Node :=
  decl.children.filter fun n => !n.kind.isTrivia

/-- A name that the tokens of an import bind: an identifier that is not renamed. -/
def BindsName (tokens : List Node) (name : String) : Prop :=
  ∃ before token after, tokens = before ++ token :: after ∧ token.isScript .ident ∧ token.text = name ∧
    ∀ next ∈ after.head?, next.isScript .asWord = false

/-- A declaration that imports something from a module. -/
def ImportsModule (decl : Node) : Prop :=
  ∃ module ∈ declTokens decl, module.isScript .str

theorem bindsName_cons {token : Node} {tokens : List Node} {name : String} :
    BindsName (token :: tokens) name ↔
      (token.isScript .ident ∧ token.text = name ∧ ∀ next ∈ tokens.head?, next.isScript .asWord = false) ∨
        BindsName tokens name := by
  constructor
  · rintro ⟨before, t, after, htokens, hident, htext, hnext⟩
    cases before with
    | nil =>
        obtain ⟨rfl, rfl⟩ := List.cons.inj htokens
        exact .inl ⟨hident, htext, hnext⟩
    | cons b before =>
        obtain ⟨rfl, rfl⟩ := List.cons.inj htokens
        exact .inr ⟨before, t, after, rfl, hident, htext, hnext⟩
  · rintro (⟨hident, htext, hnext⟩ | ⟨before, t, after, rfl, hident, htext, hnext⟩)
    · exact ⟨[], token, tokens, rfl, hident, htext, hnext⟩
    · exact ⟨token :: before, t, after, rfl, hident, htext, hnext⟩

theorem not_bindsName_nil (name : String) : ¬ BindsName [] name := by
  rintro ⟨before, _, _, htokens, -⟩
  exact List.append_ne_nil_of_right_ne_nil before (List.cons_ne_nil _ _) htokens.symm

/-- The names that are noted of an import are those that its tokens bind. -/
theorem mem_boundNames {tokens : List Node} {name : String} : name ∈ boundNames tokens ↔ BindsName tokens name := by
  fun_induction boundNames tokens with
  | case1 => simp [not_bindsName_nil]
  | case2 n hident =>
      rw [List.mem_singleton, bindsName_cons]
      refine ⟨fun hname => .inl ⟨hident, hname.symm, fun next hnext => absurd hnext (Option.not_mem_none next)⟩, ?_⟩
      rintro (⟨-, htext, -⟩ | hnone)
      · exact htext.symm
      · exact absurd hnone (not_bindsName_nil name)
  | case3 n hident => simp [bindsName_cons, not_bindsName_nil, hident]
  | case4 n next ns others hbinds ih =>
      obtain ⟨hident, hkept⟩ := Bool.and_eq_true_iff.mp hbinds
      have hnext : next.isScript .asWord = false := Bool.not_eq_true' _ ▸ hkept
      rw [List.mem_cons, ih, @bindsName_cons n (next :: ns)]
      refine or_congr_left ⟨fun hname => ⟨hident, hname.symm, fun m hm => ?_⟩, fun hfirst => hfirst.2.1.symm⟩
      exact Option.some.inj hm ▸ hnext
  | case5 n next ns others hbinds ih =>
      rw [ih, @bindsName_cons n (next :: ns)]
      refine (or_iff_right ?_).symm
      rintro ⟨hident, -, hnext⟩
      exact hbinds (Bool.and_eq_true_iff.mpr ⟨hident, by rw [hnext next rfl]; rfl⟩)

/-- **The names that an import binds are known.** -/
theorem importNeeds_bound {decl : Node} (h : ImportsModule decl) {name : String} :
    name ∈ (importNeeds decl).bound ↔ BindsName (declTokens decl) name := by
  obtain ⟨module, hmodule, hstr⟩ := h
  unfold importNeeds
  dsimp only
  split
  · rename_i hnone
    exact absurd hstr (List.find?_eq_none.mp hnone module (List.mem_reverse.mpr hmodule))
  · exact mem_boundNames

end ComponentMarkup.Render

namespace ComponentMarkup

open ComponentMarkup.Tree ComponentMarkup.Document ComponentMarkup.Program ComponentMarkup.Render

variable {text : String} {settings : Settings} {compiled : Compiled}

/-- What the program of a document needs, and the nodes that it was gathered from. -/
structure NeedsOf (text : String) (settings : Settings) (root : Node) (needs : Needs) : Prop where
  parsed : parse text = .ok root
  gathered : ∃ nodes, view? root = some (.sequence nodes) ∧
    needs = (renderDocument settings root.height nodes).needs

/-- **Components do not clash with imports.**  A name that a program takes out of a namespace is bound by no import of
the document, whichever form the import has, unless it is the component that renders the document. -/
theorem compile_componentNames (h : compile text settings = .ok compiled) :
    ∃ root needs, NeedsOf text settings root needs ∧
      (∃ rest, compiled.program = headText settings needs ++ rest) ∧
      (∀ name ∈ componentNames settings needs, ∃ group before after, name ∈ group.2 ∧
        headText settings needs = before ++ componentLine group ++ after) ∧
      (∀ code ∈ needs.imports, ∃ decl render, Node.Within root decl ∧ decl.isScript .importDecl ∧
        code = Code.trimEnd (copyTree render decl []).value ∧
        ∀ name ∈ componentNames settings needs, ImportsModule decl → BindsName (declTokens decl) name →
          name = documentComponent) ∧
      ∀ code ∈ needs.exports, ∃ decl render, Node.Within root decl ∧ decl.isScript .exportDecl ∧
        code = Code.trimEnd (copyTree render decl []).value ∧
        ∀ name ∈ (copyTree render decl []).needs.names, (∃ space, (name, space) ∈ settings.prelude) →
          name ∉ needs.bound → name ∈ componentNames settings needs := by
  obtain ⟨root, nodes, hparse, -, hview, hprogram, -⟩ := compile_inv h
  have haccounted := renderDocument_accounted settings root.height (view?_within .root hview)
  have hrest : ∃ rest, compiled.program = headText settings (renderDocument settings root.height nodes).needs ++ rest := by
    obtain ⟨chunks, hchunks⟩ : ∃ chunks, programChunks settings text root nodes =
        .mark 0 :: .text (headText settings (renderDocument settings root.height nodes).needs) :: chunks := ⟨_, rfl⟩
    refine ⟨chunkText chunks, ?_⟩
    rw [hprogram, hchunks]
    simp [chunkText]
  refine ⟨root, _, ⟨hparse, nodes, hview, rfl⟩, hrest, fun name hname => componentNames_line hname,
    fun code hcode => ?_, fun code hcode => ?_⟩
  · obtain ⟨decl, render, hdecl, hkind, hcopied, hbound⟩ := haccounted.imports code hcode
    refine ⟨decl, render, hdecl, hkind, hcopied, fun name hname hmodule hbinds => ?_⟩
    have hknown := hbound ((importNeeds_bound hmodule).mpr hbinds)
    have hprovided := (mem_componentNames.mp hname).1
    unfold isProvided at hprovided
    rw [List.contains_iff_mem.mpr hknown, Bool.not_true, Bool.and_false, Bool.false_or] at hprovided
    exact beq_iff_eq.mp hprovided
  · obtain ⟨decl, render, hdecl, hkind, hcopied, hnames⟩ := haccounted.exports code hcode
    refine ⟨decl, render, hdecl, hkind, hcopied, fun name hname hcomponent hnot => ?_⟩
    refine mem_componentNames.mpr ⟨?_, hcomponent⟩
    unfold isProvided
    simp only [List.contains_iff_mem.mpr (hnames hname), Bool.true_and, Bool.or_eq_true, Bool.not_eq_true']
    exact .inl (Bool.eq_false_iff.mpr fun hcontains => hnot (List.contains_iff_mem.mp hcontains))

/-- Whether what the program of a document needs passes a test. -/
def needsPass (text : String) (test : Needs → Bool) : Bool :=
  match parse text with
  | .error _ => false
  | .ok root =>
    match view? root with
    | some (.sequence nodes) => test (renderDocument {} root.height nodes).needs
    | _ => false

theorem NeedsOf.passes {root : Node} {needs : Needs} {test : Needs → Bool} (h : NeedsOf text {} root needs)
    (hpass : needsPass text test = true) : test needs = true := by
  obtain ⟨nodes, hview, rfl⟩ := h.gathered
  unfold needsPass at hpass
  rw [h.parsed] at hpass
  dsimp only at hpass
  rwa [hview] at hpass

/-- A section that the document imports under that name is not taken out of its namespace. -/
theorem compile_componentNames_imported :
    ∃ compiled root needs, compile "% import { A as Section } from 'm'\n\n@Section: A" {} = .ok compiled ∧
      NeedsOf "% import { A as Section } from 'm'\n\n@Section: A" {} root needs ∧
      (∃ rest, compiled.program = headText {} needs ++ rest) ∧
      "Section" ∈ needs.bound ∧ componentNames {} needs = ["Document"] := by
  have hcompiles : (compile "% import { A as Section } from 'm'\n\n@Section: A" {}).toBool = true := by decide +kernel
  have hpass : needsPass "% import { A as Section } from 'm'\n\n@Section: A"
      (fun needs => needs.bound.contains "Section" && componentNames {} needs == ["Document"]) = true := by
    decide +kernel
  cases h : compile "% import { A as Section } from 'm'\n\n@Section: A" {} with
  | error e =>
      rw [h] at hcompiles
      exact absurd hcompiles Bool.false_ne_true
  | ok compiled =>
      obtain ⟨root, needs, hneeds, hhead, -⟩ := compile_componentNames h
      obtain ⟨hbound, hnames⟩ := Bool.and_eq_true_iff.mp (hneeds.passes hpass)
      exact ⟨compiled, root, needs, rfl, hneeds, hhead, List.contains_iff_mem.mp hbound, beq_iff_eq.mp hnames⟩

/-- A section that the document exports is taken out of its namespace as well: the program declares the name twice. -/
theorem compile_componentNames_exported :
    (compile "% export let Section = 1\n\n@Section: A" {}).toOption.map Compiled.program = some
      ("import \x7b createElement as el, Fragment \x7d from \"react\";\n" ++
        "import \x7b observer \x7d from \"mobx-react\";\n" ++
        "import \x7b document \x7d from \"@nota-lang/nota-components\";\n" ++
        "import \"@nota-lang/nota-components/dist/index.css\";\n" ++
        "const \x7b Document, Section \x7d = document;\n" ++
        "export let Section = 1;\n" ++
        "export default observer(docProps => el(Document, docProps, el(Section, \x7bblock: true\x7d, \"A\")));\n") := by
  decide +kernel

end ComponentMarkup
