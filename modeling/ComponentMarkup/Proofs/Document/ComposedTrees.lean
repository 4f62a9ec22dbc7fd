import ComponentMarkup.Proofs.Document.FormedTrees
import ComponentMarkup.Proofs.Markup.ComposedBlocks

/-!
# Trees of texts are composed

What the grammar of documents reads is composed.  Scripts are composed as well, since nothing is said about their nodes.
Arrangements only look at the kinds of children, and grafting leaves these as they are, except that slots get a child.
In a slot for script that is a node of a script, and in a body of several lines it is a document.

* `grammar_composed`, `grammar_root` — trees of one grammar, and the kinds of their roots;
* `Node.Settled` — a node whose children are arranged, with a document in each body of several lines;
* `Mounted.settled`, `parse_settled` — the trees of texts have only such nodes.
-/

namespace ComponentMarkup.Tree.Node

variable {n : Node} {f : Nat → Nat}

/-- What the kind of a node says about its children does not depend on places. -/
theorem Arranged.mapPlaces (h : n.Arranged) : (n.mapPlaces f).Arranged := by
  cases n with
  | leaf => trivial
  | fault => trivial
  | inner kind span host count faulty children =>
      cases kind with
      | script => trivial
      | fault => trivial
      | markup kind =>
          have hkinds : (mapPlacesOf f children).map Node.kind = children.map Node.kind := by
            rw [mapPlacesOf_eq, List.map_map]
            exact List.map_congr_left fun child _ => child.kind_mapPlaces f
          show kind.Arranges ((mapPlacesOf f children).map Node.kind)
          rw [hkinds]
          exact h

/-- Without what it hosts, a node is of the same kind. -/
theorem kind_bare (n : Node) : n.bare.kind = n.kind :=
  congrArg Prod.fst n.tag_bare

theorem kinds_bareOf (ns : List Node) : (bareOf ns).map kind = ns.map kind := by
  rw [bareOf_eq, List.map_map]
  exact List.map_congr_left fun n _ => n.kind_bare

/-- A node whose children are arranged as its kind says.  If it is a body of several lines, it hosts its only child. -/
structure Settled (n : Node) : Prop where
  arranged : n.Arranged
  hosts : n.kind = .markup .markupHole → ∃ root, n.hostedRoot? = some root ∧ n.children = [root]

theorem Settled.mapPlaces (h : n.Settled) : (n.mapPlaces f).Settled := by
  refine ⟨h.arranged.mapPlaces, fun hkind => ?_⟩
  rw [kind_mapPlaces] at hkind
  obtain ⟨root, hroot, hchildren⟩ := h.hosts hkind
  refine ⟨root.mapPlaces f, ?_, ?_⟩
  · obtain ⟨choice, hhost, -⟩ := Option.bind_eq_some_iff.mp hroot
    rw [hostedRoot?, host?_mapPlaces, hhost, children_mapPlaces, hchildren]
    rfl
  · rw [children_mapPlaces, hchildren]
    rfl

end ComponentMarkup.Tree.Node

namespace ComponentMarkup.Document

open ComponentMarkup.Text ComponentMarkup.Tree ComponentMarkup.Script ComponentMarkup.Markup

variable {src : Source} {s : Span} {path : List (Choice × Span)} {root n : Node} {choice : Choice} {g : Grammar}

/-! ## Trees of one grammar -/

/-- A tree is composed without what its slots host. -/
theorem slotted_composed {place : Choice → Span → Prop} (h : Slotted place n) (hcomposed : Composed n) :
    Composed n.bare := by
  induction h with
  | slot slot leaf => exact leaf ▸ composed_leaf _ _ _
  | leaf => exact hcomposed
  | fault => exact hcomposed
  | @branch kind span count faulty children plain flag parts ih =>
      refine .intro ?_ fun m hm => ?_
      · have hhere := hcomposed.here
        cases kind with
        | script => trivial
        | fault => trivial
        | markup kind =>
            show kind.Arranges ((Node.bareOf children).map Node.kind)
            rw [Node.kinds_bareOf]
            exact hhere
      · have hm : m ∈ Node.bareOf children := hm
        rw [Node.bareOf_eq] at hm
        obtain ⟨child, hchild, rfl⟩ := List.mem_map.mp hm
        exact ih child hchild (hcomposed.child hchild)

/-- Scripts are composed. -/
theorem madeOfTokens_composed {stop : Nat} (h : MadeOfTokens src stop n) : Composed n.bare := by
  induction h with
  | token => exact composed_leaf _ _ _
  | last => exact composed_leaf _ _ _
  | fault => exact .intro trivial fun _ hc => absurd hc List.not_mem_nil
  | @branch k span count faulty children plain flag parts ih =>
      refine .intro trivial fun m hm => ?_
      have hm : m ∈ Node.bareOf children := hm
      rw [Node.bareOf_eq] at hm
      obtain ⟨child, hchild, rfl⟩ := List.mem_map.mp hm
      exact ih child hchild
  | command => exact composed_leaf _ _ _

/-- The root of a script is a node of a script. -/
theorem madeOfTokens_kind {stop : Nat} (h : MadeOfTokens src stop n) : n.kind.isForeign = true := by
  cases h with
  | token => rfl
  | last => rfl
  | fault => rfl
  | branch => rfl
  | command => rfl

/-- **What a standard grammar reads is composed**, its slots empty, unless nesting gets too deep. -/
theorem grammar_composed (hg : GrammarSet.standard.get? choice.grammar = some g) (hle : s.start ≤ s.stop)
    (hstop : s.stop ≤ src.size) (hcomplete : (g.parse src s choice.entry).overflow = none) :
    Composed (g.parse src s choice.entry).value.bare := by
  have hslotted := grammar_slotted hg hle hstop
  have hmember : g ∈ [Grammar.markup, Grammar.script] := List.mem_of_find?_eq_some hg
  rcases List.mem_pair.mp hmember with rfl | rfl
  · refine slotted_composed hslotted ?_
    unfold Grammar.markup at hcomplete ⊢
    dsimp only at hcomplete ⊢
    split
    · exact readInlineContent_composed src s
    · rename_i hentry
      rw [if_neg hentry] at hcomplete
      exact readDocument_composed hcomplete
  · show Composed (readNamed src s choice.entry).value.bare
    unfold readNamed
    split
    · exact madeOfTokens_composed (readEntry_tokens hle hstop _)
    · refine .intro trivial fun m hm => ?_
      obtain rfl := List.mem_singleton.mp hm
      exact .intro trivial fun _ hc => absurd hc List.not_mem_nil

/-- A branch has the kind it is made with. -/
theorem kind_branchAt (kind : Kind) (place : Nat) (nodes : List Node) : (Node.branchAt kind place nodes).kind = kind := by
  unfold Node.branchAt
  split
  · rfl
  · rfl

/-- The root of what a slot asks for is of a kind that the slot may hold. -/
theorem grammar_root {kind : MarkupKind} (hslot : choice? (.markup kind) = some choice)
    (hg : GrammarSet.standard.get? choice.grammar = some g) (hle : s.start ≤ s.stop) (hstop : s.stop ≤ src.size) :
    kind.Arranges [(g.parse src s choice.entry).value.kind] := by
  have hscript : GrammarSet.standard.get? "script" = some .script := rfl
  have hmarkup : GrammarSet.standard.get? "markup" = some .markup := rfl
  have hforeign : ∀ entry : String, ∀ k ∈ [(Grammar.script.parse src s entry).value.kind], k.isForeign = true := by
    intro entry k hk
    obtain rfl := List.mem_singleton.mp hk
    show (readNamed src s entry).value.kind.isForeign = true
    unfold readNamed
    split
    · exact madeOfTokens_kind (readEntry_tokens hle hstop _)
    · rfl
  have hdocument : (Grammar.markup.parse src s "document").value.kind = .markup .document := kind_branchAt _ _ _
  cases kind
  all_goals first
    | exact absurd hslot (Option.some_ne_none choice).symm
    | obtain rfl := Option.some.inj hslot
  case markupHole =>
    obtain rfl := Option.some.inj (hmarkup.symm.trans hg)
    show [_] = [_]
    rw [hdocument]
  all_goals
    obtain rfl := Option.some.inj (hscript.symm.trans hg)
    exact hforeign _

/-! ## Whole trees -/

/-- **A tree with all that it hosts is settled** if it is composed without. -/
theorem Mounted.settled (h : Mounted src path n) (hfits : n.Fits src) (hbare : Composed n.bare) :
    n.Throughout Node.Settled := by
  induction h with
  | @leaf path kind text span plain =>
      refine .intro ⟨trivial, fun hkind => ?_⟩ fun _ hc => absurd hc List.not_mem_nil
      have hkind : kind = .markup .markupHole := hkind
      rw [hkind] at plain
      exact absurd plain (Option.some_ne_none _)
  | fault => exact .intro ⟨trivial, nofun⟩ fun _ hc => absurd hc List.not_mem_nil
  | @branch path kind span count faulty children plain flag parts ih =>
      cases hfits with
      | inner _ _ _ tiles =>
          refine .intro ⟨?_, fun hkind => ?_⟩ fun child hchild => ?_
          · have hhere : Node.Arranged (.inner kind span none _ _ (Node.bareOf children)) := hbare.here
            cases kind with
            | script => trivial
            | fault => trivial
            | markup kind =>
                have hkinds : kind.Arranges ((Node.bareOf children).map Node.kind) := hhere
                rw [Node.kinds_bareOf] at hkinds
                exact hkinds
          · have hkind : kind = .markup .markupHole := hkind
            rw [hkind] at plain
            exact absurd plain (Option.some_ne_none _)
          · refine ih child hchild (tiles child hchild) (hbare.child ?_)
            show child.bare ∈ Node.bareOf children
            rw [Node.bareOf_eq]
            exact List.mem_map_of_mem hchild
  | @mount path kind span choice g root levels slot found _ complete _ bare _ _ ih =>
      have hroot : Composed (g.parse src span choice.entry).value.bare :=
        grammar_composed found hfits.le hfits.stop_le complete
      have hkind : root.kind = (g.parse src span choice.entry).value.kind := by
        rw [← root.kind_bare, bare, Node.kind_bare]
      refine .intro ⟨?_, fun _ => ⟨root, rfl, rfl⟩⟩ fun m hm => ?_
      · cases kind with
        | script => trivial
        | fault => trivial
        | markup kind =>
            show kind.Arranges [root.kind]
            rw [hkind]
            exact grammar_root slot found hfits.le hfits.stop_le
      · obtain rfl := List.mem_singleton.mp hm
        cases hfits with
        | inner _ _ _ tiles => exact ih (tiles _ hm) (bare ▸ hroot)

/-- The blocks of a text that has a tree do not nest too deep. -/
theorem parseSource_complete (h : parseSource .standard src = .ok root) :
    (readDocument src src.whole).overflow = none := by
  have hmarkup : GrammarSet.standard.get? "markup" = some .markup := rfl
  unfold parseSource at h
  rw [hmarkup] at h
  dsimp only at h
  cases hoverflow : (graftRoot .standard src (Grammar.markup.parse src src.whole "document")).overflow with
  | some place =>
      rw [hoverflow] at h
      exact absurd h (by simp)
  | none => exact graft_overflow hoverflow

/-- The root of the tree of a text is a document. -/
theorem parse_kind {text : String} (h : parse text = .ok root) : root.kind = .markup .document := by
  obtain ⟨placed, hplaced, rfl⟩ := parse_placed h
  obtain ⟨-, hbare⟩ := parseSource_grafted hplaced
  have hkind : placed.bare.kind = .markup .document := by
    rw [hbare, Node.kind_bare]
    exact kind_branchAt _ _ _
  rw [Node.inBytes, Node.kind_mapPlaces, ← placed.kind_bare, hkind]

/-- **All nodes of the tree of a text are settled.** -/
theorem parse_settled {text : String} (h : parse text = .ok root) : root.Throughout Node.Settled := by
  obtain ⟨placed, hplaced, rfl⟩ := parse_placed h
  obtain ⟨hmounted, hbare⟩ := parseSource_grafted hplaced
  have hmarkup : GrammarSet.standard.get? (Choice.mk "markup" "document").grammar = some .markup := rfl
  have hcomplete := parseSource_complete hplaced
  generalize Source.ofString text = src at *
  have hroot := grammar_composed (s := src.whole) hmarkup (Nat.zero_le _) (Nat.le_refl src.size) hcomplete
  refine Node.Throughout.mapPlaces (fun _ hn => hn.mapPlaces) ?_
  refine hmounted.settled (parseSource_fits standard_faithful hplaced).1 ?_
  rw [hbare]
  exact hroot

end ComponentMarkup.Document
