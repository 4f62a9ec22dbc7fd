import ComponentMarkup.Proofs.Render.MarkupMentions
import ComponentMarkup.Proofs.Render.ParsedScripts
import Mathlib.Data.List.Nodup

/-!
# Components that a program provides

A document can use the components of the library without importing them.  The program takes those that it needs out
of their namespaces: one line for each namespace, which lists the components of the namespace once each, and an import
of all these namespaces.  A component is needed if its name occurs in what the document is rendered to and no import
binds it.  Names are noted while a document is rendered, and those that are noted are those that occur; so each
component that occurs is imported by the document or listed once, and besides the component that renders the document
no other is listed.

Names in the substitutions of template strings are not noted: `compile_templateName` is a program that refers to a
component there and does not provide it.

* `Grouped`, `usedComponents_grouped` — the groups that components are listed in;
* `Occurs`, `occurs_iff` — what occurs in a document is what was noted;
* `compile_preludeComponents` — a program provides the components that occur.
-/

namespace ComponentMarkup.Program

open ComponentMarkup.Render

variable {settings : Settings} {needs : Needs} {groups : List (String × List String)} {entries : List (String × String)}
  {name space : String}

/-! ## Groups -/

/-- Groups of the names of entries: each key has one group, with the names of its entries in order. -/
structure Grouped (groups : List (String × List String)) (entries : List (String × String)) : Prop where
  keys : (groups.map Prod.fst).Nodup
  names : ∀ group ∈ groups, group.2 = (entries.filter fun entry => entry.2 == group.1).map Prod.fst
  covers : ∀ entry ∈ entries, entry.2 ∈ groups.map Prod.fst

theorem Grouped.empty : Grouped [] [] :=
  ⟨List.nodup_nil, fun _ h => absurd h List.not_mem_nil, fun _ h => absurd h List.not_mem_nil⟩

/-- A name is added to the group of its key. -/
theorem Grouped.add (h : Grouped groups entries) :
    Grouped (addToGroup groups space name) (entries ++ [(name, space)]) := by
  have hfilter : ∀ key, ((entries ++ [(name, space)]).filter fun entry => entry.2 == key).map Prod.fst =
      (entries.filter fun entry => entry.2 == key).map Prod.fst ++ if space == key then [name] else [] := by
    intro key
    rw [List.filter_append, List.map_append]
    by_cases hkey : space == key <;> simp [hkey]
  unfold addToGroup
  split
  · rename_i hany
    have hkeys : (groups.map fun g => if g.1 == space then (g.1, g.2 ++ [name]) else g).map Prod.fst =
        groups.map Prod.fst := by
      rw [List.map_map]
      exact List.map_congr_left fun g _ => by dsimp only [Function.comp_apply]; split <;> rfl
    refine ⟨hkeys ▸ h.keys, fun group hgroup => ?_, fun entry hentry => ?_⟩
    · obtain ⟨old, hold, rfl⟩ := List.mem_map.mp hgroup
      split
      · rename_i hkey
        rw [hfilter, h.names old hold, if_pos (beq_iff_eq.mpr (beq_iff_eq.mp hkey).symm)]
      · rename_i hkey
        rw [hfilter, h.names old hold, if_neg fun heq => hkey (beq_iff_eq.mpr (beq_iff_eq.mp heq).symm),
          List.append_nil]
    · rw [hkeys]
      rcases List.mem_append.mp hentry with hentry | hentry
      · exact h.covers entry hentry
      · obtain rfl := List.mem_singleton.mp hentry
        obtain ⟨group, hgroup, hkey⟩ := List.any_eq_true.mp hany
        exact List.mem_map.mpr ⟨group, hgroup, beq_iff_eq.mp hkey⟩
  · rename_i hnone
    have hfresh : space ∉ groups.map Prod.fst := by
      intro hmem
      obtain ⟨group, hgroup, hkey⟩ := List.mem_map.mp hmem
      exact hnone (List.any_eq_true.mpr ⟨group, hgroup, beq_iff_eq.mpr hkey⟩)
    refine ⟨?_, fun group hgroup => ?_, fun entry hentry => ?_⟩
    · rw [List.map_append, List.nodup_append]
      refine ⟨h.keys, List.nodup_singleton _, fun key hkey other hother => ?_⟩
      obtain rfl := List.mem_singleton.mp hother
      exact fun heq => hfresh (heq ▸ hkey)
    · rcases List.mem_append.mp hgroup with hgroup | hgroup
      · rw [hfilter, h.names group hgroup, if_neg, List.append_nil]
        exact fun heq => hfresh (beq_iff_eq.mp heq ▸ List.mem_map.mpr ⟨group, hgroup, rfl⟩)
      · obtain rfl := List.mem_singleton.mp hgroup
        have hother : entries.filter (fun entry => entry.2 == space) = [] :=
          List.filter_eq_nil_iff.mpr fun entry hentry heq => hfresh (beq_iff_eq.mp heq ▸ h.covers entry hentry)
        rw [hfilter, hother]
        simp
    · rw [List.map_append]
      rcases List.mem_append.mp hentry with hentry | hentry
      · exact List.mem_append_left _ (h.covers entry hentry)
      · obtain rfl := List.mem_singleton.mp hentry
        exact List.mem_append_right _ (List.mem_singleton_self _)

theorem Grouped.addAll {more : List (String × String)} (h : Grouped groups entries) :
    Grouped (more.foldl (fun groups (name, space) => addToGroup groups space name) groups) (entries ++ more) := by
  induction more generalizing groups entries with
  | nil => exact (List.append_nil entries).symm ▸ h
  | cons entry more ih =>
      rw [List.append_cons]
      exact ih h.add

/-- **The components that a program provides** are grouped by namespace. -/
theorem usedComponents_grouped (settings : Settings) (needs : Needs) :
    Grouped (usedComponents settings needs) (settings.prelude.filter fun entry => isProvided needs entry.1) :=
  Grouped.empty.addAll

/-- A name is listed exactly once: in one group, which is the only one of its key, and there once. -/
def ListedOnce (groups : List (String × List String)) (name space : String) : Prop :=
  ∃ first names last, groups = first ++ (space, names) :: last ∧ names.count name = 1 ∧
    ∀ group ∈ first ++ last, group.1 ≠ space ∧ name ∉ group.2

/-- A name is listed once if no entry has the name of another. -/
theorem Grouped.listedOnce (h : Grouped groups entries) (hnames : (entries.map Prod.fst).Nodup)
    (hentry : (name, space) ∈ entries) : ListedOnce groups name space := by
  obtain ⟨⟨key, names⟩, hgroup, hkey⟩ := List.mem_map.mp (h.covers _ hentry)
  obtain rfl : key = space := hkey
  obtain ⟨first, last, rfl⟩ := List.append_of_mem hgroup
  have hkeys := h.keys
  rw [List.map_append, List.map_cons, List.nodup_middle, List.nodup_cons, ← List.map_append] at hkeys
  have hlisted : names = (entries.filter fun entry => entry.2 == key).map Prod.fst := h.names _ hgroup
  refine ⟨first, names, last, rfl, ?_, fun group hother => ?_⟩
  · rw [hlisted]
    refine List.count_eq_one_of_mem (hnames.sublist (List.filter_sublist.map _)) ?_
    exact List.mem_map.mpr ⟨_, List.mem_filter.mpr ⟨hentry, beq_self_eq_true key⟩, rfl⟩
  · have hfresh : group.1 ≠ key := fun heq => hkeys.1 (heq ▸ List.mem_map.mpr ⟨group, hother, rfl⟩)
    refine ⟨hfresh, fun hname => hfresh ?_⟩
    have hmem : group ∈ first ++ (key, names) :: last :=
      (List.mem_append.mp hother).elim (List.mem_append_left _) fun hlast =>
        List.mem_append_right _ (List.mem_cons_of_mem _ hlast)
    rw [h.names group hmem] at hname
    obtain ⟨entry, hfilter, hsame⟩ := List.mem_map.mp hname
    obtain ⟨hsecond, hspace⟩ := List.mem_filter.mp hfilter
    have heq : entry = (name, key) := List.inj_on_of_nodup_map hnames hsecond hentry hsame
    rw [← beq_iff_eq.mp hspace, heq]

/-! ## The prelude -/

/-- No component of the prelude has the name of another. -/
theorem preludeComponents_nodup : (Settings.preludeComponents.map Prod.fst).Nodup := by
  decide +kernel

/-- The components of the prelude have names that script mentions only as identifiers. -/
theorem preludeComponents_name (h : (name, space) ∈ Settings.preludeComponents) : IsComponentName name := by
  have hall : ∀ entry ∈ Settings.preludeComponents, entry.1.toList.head?.map Text.isWordStart = some true ∧
      Script.reservedWord? entry.1 = none ∧ Expr.factoryName ≠ entry.1 ∧ Expr.fragmentName ≠ entry.1 := by
    decide +kernel
  obtain ⟨hstart, hreserved, hfactory, hfragment⟩ := hall _ h
  exact ⟨Option.map_eq_some_iff.mp hstart, hreserved, hfactory, hfragment⟩

/-- A program imports the namespaces that it takes components out of, and has a line for each. -/
theorem headText_components (h : usedComponents settings needs ≠ []) :
    ∃ start sheets, headText settings needs =
      start ++ importLine (braced ((usedComponents settings needs).map Prod.fst)) settings.components ++ sheets ++
        String.join ((usedComponents settings needs).map componentLine) := by
  have hsome : (usedComponents settings needs).isEmpty = false := List.isEmpty_eq_false_iff.mpr h
  unfold headText
  dsimp only
  rw [hsome, if_neg Bool.false_ne_true]
  exact ⟨_, _, rfl⟩

end ComponentMarkup.Program

namespace ComponentMarkup

open ComponentMarkup.Tree ComponentMarkup.Document ComponentMarkup.Program ComponentMarkup.Render

variable {text name : String} {settings : Settings} {compiled : Compiled} {root : Node}

/-- The tree of a text, and what its document is rendered to: properties and blocks. -/
structure RendersTo (text : String) (settings : Settings) (root : Node) (x : Rendered (List Member × Expr)) : Prop where
  parsed : parse text = .ok root
  rendered : ∃ nodes, view? root = some (.sequence nodes) ∧ x = renderDocument settings root.height nodes

/-- A name occurs in what a document is rendered to: in its properties or blocks, or in an import or export. -/
def Occurs (name : String) (x : Rendered (List Member × Expr)) : Prop :=
  ((∃ member ∈ x.value.1, member.Mentions name) ∨ x.value.2.Mentions name) ∨ x.needs.Hoists name

/-- **The names that were noted are those that occur**, and those that are known as bound are bound by an import. -/
theorem occurs_iff (hname : IsComponentName name) (hscripts : SoundScripts root) {x : Rendered (List Member × Expr)}
    (h : RendersTo text settings root x) :
    (name ∈ x.needs.names ↔ Occurs name x) ∧ (name ∈ x.needs.bound → x.needs.Imports root name) := by
  obtain ⟨nodes, hview, rfl⟩ := h.rendered
  have htells := renderDocument_tells hname hscripts settings root.height (view?_within .root hview)
  exact ⟨htells.names, htells.bound⟩

/-- **A program provides the components that occur.**  Each component of the prelude that occurs in what the document is
rendered to is bound by an import or listed exactly once, in the line for its namespace, and the namespaces are
imported from the library.  No other component is listed but the one that renders the document. -/
theorem compile_preludeComponents (h : compile text {} = .ok compiled) :
    ∃ root x, RendersTo text {} root x ∧
      compiled.program = chunkText (moduleLayout {} x.needs text (documentExpr x.value.1 x.value.2)) ∧
      (∃ start sheets rest, compiled.program = start ++
        importLine (braced ((usedComponents {} x.needs).map Prod.fst)) Settings.componentLibrary ++ sheets ++
        String.join ((usedComponents {} x.needs).map componentLine) ++ rest) ∧
      (∀ name space, (name, space) ∈ Settings.preludeComponents → name = documentComponent ∨ Occurs name x →
        x.needs.Imports root name ∨ ListedOnce (usedComponents {} x.needs) name space) ∧
      ∀ group ∈ usedComponents {} x.needs, ∀ name ∈ group.2,
        (name, group.1) ∈ Settings.preludeComponents ∧ (name = documentComponent ∨ Occurs name x) := by
  obtain ⟨root, nodes, hparse, hclean, hview, hprogram, -⟩ := compile_inv h
  have hscripts := parse_soundScripts hparse hclean
  have hrenders : RendersTo text {} root (renderDocument {} root.height nodes) := ⟨hparse, nodes, hview, rfl⟩
  generalize hx : renderDocument {} root.height nodes = x at hrenders
  have hgrouped := usedComponents_grouped {} x.needs
  have hentries : (((Settings.preludeComponents.filter fun entry => isProvided x.needs entry.1)).map Prod.fst).Nodup :=
    preludeComponents_nodup.sublist (List.filter_sublist.map _)
  have hlisted : ∀ {name space}, (name, space) ∈ Settings.preludeComponents → isProvided x.needs name = true →
      ListedOnce (usedComponents {} x.needs) name space :=
    fun hmem hprovided => hgrouped.listedOnce hentries (List.mem_filter.mpr ⟨hmem, hprovided⟩)
  have hdocument : ListedOnce (usedComponents {} x.needs) documentComponent "document" :=
    hlisted List.mem_cons_self (by simp [isProvided])
  have hlaid : compiled.program = chunkText (moduleLayout {} x.needs text (documentExpr x.value.1 x.value.2)) := by
    rw [hprogram, ← hx]
    rfl
  refine ⟨root, x, hrenders, hlaid, ?_, fun name space hmem hoccurs => ?_, fun group hgroup name hname => ?_⟩
  · have hsome : usedComponents {} x.needs ≠ [] := by
      obtain ⟨first, names, last, hused, -⟩ := hdocument
      rw [hused]
      simp
    obtain ⟨start, sheets, hhead⟩ := headText_components hsome
    obtain ⟨chunks, hchunks⟩ : ∃ chunks, moduleLayout {} x.needs text (documentExpr x.value.1 x.value.2) =
        .mark 0 :: .text (headText {} x.needs) :: chunks := ⟨_, rfl⟩
    refine ⟨start, sheets, chunkText chunks, ?_⟩
    rw [hlaid, hchunks, ← hhead]
    simp [chunkText]
  · obtain ⟨hnoted, himports⟩ := occurs_iff (preludeComponents_name hmem) hscripts hrenders
    rcases hoccurs with rfl | hoccurs
    · exact .inr (hlisted hmem (by simp [isProvided]))
    · by_cases hbound : name ∈ x.needs.bound
      · exact .inl (himports hbound)
      · refine .inr (hlisted hmem ?_)
        simp [isProvided, hnoted.mpr hoccurs, hbound]
  · rw [hgrouped.names group hgroup] at hname
    obtain ⟨⟨other, space⟩, hentry, rfl⟩ := List.mem_map.mp hname
    obtain ⟨hentry, hspace⟩ := List.mem_filter.mp hentry
    obtain ⟨hmem, hprovided⟩ := List.mem_filter.mp hentry
    obtain rfl : space = group.1 := beq_iff_eq.mp hspace
    refine ⟨hmem, ?_⟩
    rcases Bool.or_eq_true_iff.mp hprovided with hnoted | hdocument
    · have hnoted := List.contains_iff_mem.mp (Bool.and_eq_true_iff.mp hnoted).1
      exact .inr ((occurs_iff (preludeComponents_name hmem) hscripts hrenders).1.mp hnoted)
    · exact .inl (beq_iff_eq.mp hdocument)

theorem RendersTo.needsOf {x : Rendered (List Member × Expr)} (h : RendersTo text settings root x) :
    NeedsOf text settings root x.needs := by
  obtain ⟨nodes, hview, hx⟩ := h.rendered
  exact ⟨h.parsed, nodes, hview, congrArg Rendered.needs hx⟩

/-- A formula in a section: both components occur, and each is listed in the line for its namespace. -/
theorem compile_preludeComponents_formula : ∃ compiled root x, compile "@Section: $a$" {} = .ok compiled ∧
    RendersTo "@Section: $a$" {} root x ∧
    usedComponents {} x.needs = [("document", ["Document", "Section"]), ("math", ["$"])] ∧
    Occurs "Section" x ∧ Occurs "$" x ∧
    (x.needs.Imports root "$" ∨ ListedOnce (usedComponents {} x.needs) "$" "math") := by
  have hcompiles : (compile "@Section: $a$" {}).toBool = true := by decide +kernel
  have hpass : needsPass "@Section: $a$" (fun needs => decide
      (usedComponents {} needs = [("document", ["Document", "Section"]), ("math", ["$"])])) = true := by
    decide +kernel
  cases h : compile "@Section: $a$" {} with
  | error e =>
      rw [h] at hcompiles
      exact absurd hcompiles Bool.false_ne_true
  | ok compiled =>
      obtain ⟨root, x, hrenders, -, -, hprovided, honly⟩ := compile_preludeComponents h
      have hused := of_decide_eq_true (hrenders.needsOf.passes hpass)
      have hsection := honly ("document", ["Document", "Section"]) (by rw [hused]; decide) "Section" (by decide)
      have hformula := honly ("math", ["$"]) (by rw [hused]; decide) "$" (by decide)
      exact ⟨compiled, root, x, rfl, hrenders, hused, hsection.2.resolve_left (by decide),
        hformula.2.resolve_left (by decide), hprovided "$" "math" (by decide) hformula.2⟩

/-- A section that is named in a template string only is not provided. -/
theorem compile_templateName :
    (compile "% f(\x60$\x7bSection\x7d\x60)" {}).toOption.map Compiled.program = some
      ("import \x7b createElement as el, Fragment \x7d from \"react\";\n" ++
        "import \x7b observer \x7d from \"mobx-react\";\n" ++
        "import \x7b document \x7d from \"@nota-lang/nota-components\";\n" ++
        "import \"@nota-lang/nota-components/dist/index.css\";\n" ++
        "const \x7b Document \x7d = document;\n" ++
        "export default observer(docProps => el(Document, docProps, ...(() => \x7b\n" ++
        "f(\x60$\x7bSection\x7d\x60);\nreturn [];\n\x7d)()));\n") := by
  decide +kernel

end ComponentMarkup
