import ComponentMarkup.Proofs.Document.ScriptRegion
import ComponentMarkup.Proofs.Markup.BlockSlots
import ComponentMarkup.Proofs.Tree.Within

/-!
# Every slot hosts a tree

A document is read by two grammars in turn: documents have slots for scripts, scripts have slots for commands,
and commands again have slots.  Reading comes to an end because the slots of a document are smaller than the
document.  A command may fill the whole script it stands in, but it is no script.  So no grammar ever gets to
read, from the same entry point, a stretch that is already being read, and no slot is left without its tree.

* `Node.bare` — a tree without the trees it hosts;
* `Inside` — the order in which mounts lie inside each other, which is strict;
* `grammar_slotted` — each slot of the tree that a grammar reads lies inside the stretch it was read from;
* `hostNode_mounted` — a slot hosts the tree of its grammar, and so do all slots of that tree;
* `parse_mounted` — in the tree of a text every slot hosts the tree of its stretch.
-/

namespace ComponentMarkup.Text.Source

variable {text : String} {i j : Nat}

/-- A place is found again from the bytes before it. -/
theorem placeAt?_byteAt (hi : i ≤ (ofString text).size) :
    placeAt? (ofString text).byteOffsets (byteAt (ofString text).byteOffsets i) = some i := by
  have hlength : (String.ofList (text.toList.take i)).length = i := by
    rw [String.length_ofList, List.length_take, String.length_toList]
    exact Nat.min_eq_left (size_ofString text ▸ hi)
  have hplace := placeAt_prefix (String.ofList (text.toList.take i)) (String.ofList (text.toList.drop i))
  rw [← String.ofList_append, List.take_append_drop, String.ofList_toList, hlength] at hplace
  rw [byteAt_byteOffsets _ hi]
  exact hplace

/-- No two places have as many bytes before them. -/
theorem byteAt_inj (hi : i ≤ (ofString text).size) (hj : j ≤ (ofString text).size)
    (heq : byteAt (ofString text).byteOffsets i = byteAt (ofString text).byteOffsets j) : i = j := by
  have hplace := placeAt?_byteAt hi
  rw [heq, placeAt?_byteAt hj] at hplace
  exact (Option.some.inj hplace).symm

/-- More bytes stand before a later place. -/
theorem byteAt_le (hij : i ≤ j) (hj : j ≤ (ofString text).size) :
    byteAt (ofString text).byteOffsets i ≤ byteAt (ofString text).byteOffsets j := by
  rw [byteAt_byteOffsets _ (Nat.le_trans hij hj), byteAt_byteOffsets _ hj]
  rcases Nat.lt_or_eq_of_le hij with hlt | rfl
  · exact Nat.le_of_lt (utf8ByteSize_take_lt hlt hj)
  · exact Nat.le_refl _

end ComponentMarkup.Text.Source

namespace ComponentMarkup.Tree

open ComponentMarkup.Text

/-! ## Trees without what they host -/

namespace Node

mutual

/-- The tree without the trees it hosts: a node that hosts one is a leaf again. -/
def bare : Node → Node
  | leaf k t s => leaf k t s
  | inner k s none _ _ cs => spanning k s none (bareOf cs)
  | inner k s (some choice) c b cs => leaf k (inner k s (some choice) c b cs).fullText s
  | fault m hs t s => fault m hs t s

/-- Several trees without the trees they host. -/
def bareOf : List Node → List Node
  | [] => []
  | n :: ns => n.bare :: bareOf ns

end

theorem bareOf_eq (ns : List Node) : bareOf ns = ns.map bare := by
  induction ns with
  | nil => rfl
  | cons n ns ih => rw [bareOf, ih, List.map_cons]

variable (f : Nat → Nat)

mutual

/-- Moving places does not change what a tree hosts. -/
theorem bare_mapPlaces : ∀ n : Node, (n.mapPlaces f).bare = n.bare.mapPlaces f
  | leaf _ _ _ => rfl
  | fault _ _ _ _ => rfl
  | inner k s none c b cs => by
      rw [mapPlaces, bare, bare, spanning_mapPlaces, bareOf_mapPlacesOf cs]
  | inner k s (some choice) c b cs => by
      have htext := fullText_mapPlaces f (inner k s (some choice) c b cs)
      rw [mapPlaces] at htext
      rw [mapPlaces, bare, bare, mapPlaces, htext]

theorem bareOf_mapPlacesOf : ∀ ns : List Node, bareOf (mapPlacesOf f ns) = (bareOf ns).map (mapPlaces f)
  | [] => rfl
  | n :: ns => by
      rw [mapPlacesOf, bareOf, bareOf, bare_mapPlaces n, bareOf_mapPlacesOf ns, List.map_cons]

end

theorem host?_mapPlaces (n : Node) : (n.mapPlaces f).host? = n.host? := by
  cases n <;> rfl

theorem hosting_mapPlaces (kind : Kind) (s : Span) (choice : Choice) (root : Node) :
    (hosting kind s choice root).mapPlaces f = hosting kind ⟨f s.start, f s.stop⟩ choice (root.mapPlaces f) :=
  spanning_mapPlaces f kind s (some choice) [root]

end Node

end ComponentMarkup.Tree

namespace ComponentMarkup.Document

open ComponentMarkup.Text ComponentMarkup.Tree ComponentMarkup.Script ComponentMarkup.Markup

variable {src : Source} {s : Span} {path : List (Choice × Span)}

/-! ## Mounts inside each other -/

/-- A mount lies inside another one: its stretch is part of the other's, and all of it only if a script hosts a
document there. -/
def Inside (outer inner : Choice × Span) : Prop :=
  outer.2.start ≤ inner.2.start ∧ inner.2.stop ≤ outer.2.stop ∧
    (inner.2 = outer.2 → outer.1.grammar = "script" ∧ inner.1.grammar = "markup")

namespace Inside

variable {a b c : Choice × Span}

/-- A mount inside another one of the same grammar is smaller. -/
theorem smaller (h : Inside a b) (hsame : b.1.grammar = a.1.grammar) : b.2 ≠ a.2 := by
  intro heq
  obtain ⟨hscript, hmarkup⟩ := h.2.2 heq
  rw [hsame, hscript] at hmarkup
  exact absurd hmarkup (by decide)

/-- No mount lies inside itself. -/
theorem irrefl (h : Inside a a) : False :=
  h.smaller rfl rfl

theorem trans (h : Inside a b) (h' : Inside b c) : Inside a c := by
  refine ⟨Nat.le_trans h.1 h'.1, Nat.le_trans h'.2.1 h.2.1, fun heq => ?_⟩
  -- the mount between them covers the same stretch
  have hmiddle : b.2 = a.2 := by
    have hstart : b.2.start = a.2.start := Nat.le_antisymm (heq ▸ h'.1) h.1
    have hstop : b.2.stop = a.2.stop := Nat.le_antisymm h.2.1 (heq ▸ h'.2.1)
    exact Span.mk.injEq .. ▸ ⟨hstart, hstop⟩
  obtain ⟨_, hmarkup⟩ := h.2.2 hmiddle
  obtain ⟨hscript, _⟩ := h'.2.2 (heq.trans hmiddle.symm)
  rw [hscript] at hmarkup
  exact absurd hmarkup (by decide)

end Inside

/-! ## Slots of what one grammar reads -/

/-- A tree as one grammar alone reads it: nothing is hosted, and its slots satisfy a condition. -/
inductive Slotted (place : Choice → Span → Prop) : Node → Prop
  | slot {n : Node} {choice : Choice} (slot : choice? n.kind = some choice)
      (leaf : n.bare = .leaf n.kind n.fullText n.span) (placed : place choice n.span) : Slotted place n
  | leaf {kind : Kind} {text : String} {span : Span} (plain : choice? kind = none) :
      Slotted place (.leaf kind text span)
  | fault {message : String} {hints : List String} {text : String} {span : Span} :
      Slotted place (.fault message hints text span)
  | branch {kind : Kind} {span : Span} {count : Nat} {faulty : Bool} {children : List Node}
      (plain : choice? kind = none) (flag : faulty = children.any Node.faulty)
      (parts : ∀ child ∈ children, Slotted place child) :
      Slotted place (.inner kind span none count faulty children)

/-- The text of a leaf that tiles its text. -/
theorem bare_leaf (kind : Kind) (text : String) (span : Span) :
    (Node.leaf kind text span).bare = .leaf kind (Node.leaf kind text span).fullText span := by
  simp [Node.bare, Node.fullText, Node.leaves, Node.text]

/-- The slots of a guarded tree are smaller than any stretch that the tree lies in. -/
theorem guarded_slotted {n : Node} (h : Guarded n) (hfits : n.Fits src) (hstart : s.start ≤ n.start)
    (hstop : n.stop ≤ s.stop) :
    Slotted (fun _ t => s.start ≤ t.start ∧ t.stop ≤ s.stop ∧ t ≠ s) n := by
  induction h with
  | leaf plain => exact .leaf plain
  | fault => exact .fault
  | @branch kind span count faulty children plain flag parts slots ih =>
      cases hfits with
      | inner chain _ _ tiles =>
          have hrun : Run src.Holds span.start span.stop children := ⟨chain, tiles⟩
          refine .branch plain flag fun child hchild => ?_
          cases hkind : choice? child.kind with
          | none =>
              exact ih child hchild hkind (tiles child hchild)
                (Nat.le_trans hstart (hrun.le_start (joinable_places src) hchild))
                (Nat.le_trans (hrun.stop_le (joinable_places src) hchild) hstop)
          | some choice =>
              obtain ⟨hslot, _, other, hother, hplain, hlt⟩ :=
                slots child hchild (by rw [hkind]; exact Option.some_ne_none choice)
              have hne : other ≠ child := by
                rintro rfl
                rw [hkind] at hplain
                exact absurd hplain (Option.some_ne_none choice)
              have hle := (tiles child hchild).le
              have hstart : s.start ≤ span.start := hstart
              have hstop : span.stop ≤ s.stop := hstop
              -- the delimiter beside the slot takes some of the stretch
              have hsmaller : s.start ≤ child.start ∧ child.stop ≤ s.stop ∧ child.span ≠ s := by
                rcases hrun.apart (joinable_places src) hchild hother hne with
                  ⟨hfirst, hbetween, hlast⟩ | ⟨hfirst, hbetween, hlast⟩
                · refine ⟨by omega, by omega, ?_⟩
                  rintro rfl
                  have heq : child.span.start = child.start := rfl
                  omega
                · refine ⟨by omega, by omega, ?_⟩
                  rintro rfl
                  have heq : child.span.stop = child.stop := rfl
                  omega
              refine .slot hkind ?_ hsmaller
              cases child with
              | leaf kind text span => exact bare_leaf kind text span
              | inner => exact hslot.elim
              | fault => exact hslot.elim

theorem Slotted.weaken {place place' : Choice → Span → Prop} {n : Node} (h : Slotted place n)
    (hle : ∀ choice t, place choice t → place' choice t) : Slotted place' n := by
  induction h with
  | slot slot leaf placed => exact .slot slot leaf (hle _ _ placed)
  | leaf plain => exact .leaf plain
  | fault => exact .fault
  | branch plain flag _ ih => exact .branch plain flag ih

theorem Slotted.command {place : Choice → Span → Prop} {n : Node} (hkind : n.kind = .script .embed)
    (hleaf : n.bare = .leaf n.kind n.fullText n.span) (hplaced : place ⟨"markup", "inline"⟩ n.span) :
    Slotted place n :=
  .slot (by rw [hkind]; rfl) hleaf hplaced

/-- The slots of a script are its commands. -/
theorem madeOfTokens_slotted {stop : Nat} {n : Node} (h : MadeOfTokens src stop n) (hfits : n.Fits src)
    (hstart : s.start ≤ n.start) (hstop : n.stop ≤ s.stop) :
    Slotted (fun choice t => s.start ≤ t.start ∧ t.stop ≤ s.stop ∧ choice.grammar = "markup") n := by
  induction h with
  | @token k text span reads =>
      by_cases hk : k = .embed
      · subst hk
        exact .command rfl (bare_leaf _ text span) ⟨hstart, hstop, rfl⟩
      · exact .leaf (choice?_script hk)
  | last => exact .leaf rfl
  | fault => exact .fault
  | @branch k span count faulty children plain flag parts ih =>
      cases hfits with
      | inner chain _ _ tiles =>
          have hrun : Run src.Holds span.start span.stop children := ⟨chain, tiles⟩
          refine .branch (choice?_script plain) flag fun child hchild => ?_
          exact ih child hchild (tiles child hchild)
            (Nat.le_trans hstart (hrun.le_start (joinable_places src) hchild))
            (Nat.le_trans (hrun.stop_le (joinable_places src) hchild) hstop)
  | command reads => exact .command rfl rfl ⟨hstart, hstop, rfl⟩

/-- What a standard grammar reads: its slots lie inside the stretch that it reads. -/
theorem grammar_slotted {choice : Choice} {g : Grammar} (hg : GrammarSet.standard.get? choice.grammar = some g)
    (hle : s.start ≤ s.stop) (hstop : s.stop ≤ src.size) :
    Slotted (fun inner t => Inside (choice, s) (inner, t)) (g.parse src s choice.entry).value := by
  have hfits := standard_faithful.get? hg src s choice.entry hle hstop
  have hstart : s.start ≤ (g.parse src s choice.entry).value.start := Nat.le_of_eq (congrArg Span.start hfits.2.symm)
  have hend : (g.parse src s choice.entry).value.stop ≤ s.stop := Nat.le_of_eq (congrArg Span.stop hfits.2)
  have hname := List.find?_some hg
  have hmember : g ∈ [Grammar.markup, Grammar.script] := List.mem_of_find?_eq_some hg
  rcases List.mem_pair.mp hmember with rfl | rfl
  · have hguarded : Guarded (Grammar.markup.parse src s choice.entry).value := by
      unfold Grammar.markup
      dsimp only
      split
      · exact readInlineContent_guarded src s
      · exact readDocument_guarded src s
    exact (guarded_slotted hguarded hfits.1 hstart hend).weaken fun inner t ht => ⟨ht.1, ht.2.1, fun heq => absurd heq ht.2.2⟩
  · have hscript : choice.grammar = "script" := (beq_iff_eq.mp hname).symm
    have hslotted : Slotted (fun inner t => s.start ≤ t.start ∧ t.stop ≤ s.stop ∧ inner.grammar = "markup")
        (readNamed src s choice.entry).value := by
      unfold readNamed
      split
      · rename_i entry hentry
        have hspan : (readEntry src s entry).value.Fits src ∧ (readEntry src s entry).value.span = s :=
          readEntry_fits entry hle hstop
        exact madeOfTokens_slotted (readEntry_tokens hle hstop entry) hspan.1
          (Nat.le_of_eq (congrArg Span.start hspan.2.symm)) (Nat.le_of_eq (congrArg Span.stop hspan.2))
      · exact .branch rfl rfl fun child hchild => List.mem_singleton.mp hchild ▸ .fault
    exact hslotted.weaken fun inner t ht => ⟨ht.1, ht.2.1, fun _ => ⟨hscript, ht.2.2⟩⟩

/-! ## Grafting -/

/-- A tree whose slots all host the trees of their stretches, and so on in these trees.  All mounts lie inside
those around them. -/
inductive Mounted (src : Source) : List (Choice × Span) → Node → Prop
  | leaf {path : List (Choice × Span)} {kind : Kind} {text : String} {span : Span}
      (plain : choice? kind = none) : Mounted src path (.leaf kind text span)
  | fault {path : List (Choice × Span)} {message : String} {hints : List String} {text : String} {span : Span} :
      Mounted src path (.fault message hints text span)
  | branch {path : List (Choice × Span)} {kind : Kind} {span : Span} {count : Nat} {faulty : Bool}
      {children : List Node} (plain : choice? kind = none) (flag : faulty = children.any Node.faulty)
      (parts : ∀ child ∈ children, Mounted src path child) :
      Mounted src path (.inner kind span none count faulty children)
  | mount {path : List (Choice × Span)} {kind : Kind} {span : Span} {choice : Choice} {g : Grammar} {root : Node}
      {levels : Nat} (slot : choice? kind = some choice)
      (found : GrammarSet.standard.get? choice.grammar = some g) (offered : choice.entry ∈ g.entries)
      (complete : (g.parse src span choice.entry).overflow = none)
      (grafted : root = (graft (hostNode .standard src levels ((choice, span) :: path)) none
        (g.parse src span choice.entry).value).value)
      (bare : root.bare = (g.parse src span choice.entry).value.bare)
      (inside : ∀ outer ∈ path, Inside outer (choice, span))
      (below : Mounted src ((choice, span) :: path) root) :
      Mounted src path (.hosting kind span choice root)

/-- What went too deep stays too deep. -/
theorem graft_overflow {host : Choice → Node → Limited Node} {overflow : Option Nat} {n : Node}
    (h : (graft host overflow n).overflow = none) : overflow = none := by
  cases overflow with
  | none => rfl
  | some place => cases n <;> exact absurd h (by simp [graft])

theorem graftAll_overflow {host : Choice → Node → Limited Node} {overflow : Option Nat} {ns : List Node}
    (h : (graftAll host overflow ns).overflow = none) : overflow = none := by
  induction ns generalizing overflow with
  | nil => exact h
  | cons n ns ih => exact graft_overflow (ih h)

/-- Grafting a slot hosts its grammar there. -/
theorem graft_slot {host : Choice → Node → Limited Node} {n : Node} {choice : Choice}
    (h : choice? n.kind = some choice) : graft host none n = host choice n := by
  cases n with
  | leaf kind text span => simp [graft, show choice? kind = some choice from h]
  | inner kind span hosted count faulty children => simp [graft, show choice? kind = some choice from h]
  | fault => exact absurd h (Option.some_ne_none choice).symm

/-- Grafting a leaf that is no slot leaves it alone. -/
theorem graft_leaf {host : Choice → Node → Limited Node} {kind : Kind} {text : String} {span : Span}
    (h : choice? kind = none) : graft host none (.leaf kind text span) = ⟨.leaf kind text span, none⟩ := by
  simp [graft, h]

/-- Grafting a branch grafts its children. -/
theorem graft_branch {host : Choice → Node → Limited Node} {kind : Kind} {span : Span} {count : Nat} {faulty : Bool}
    {children : List Node} (h : choice? kind = none) :
    graft host none (.inner kind span none count faulty children) =
      ⟨if children.isEmpty then .inner kind span none count faulty children
        else .spanning kind span none (graftAll host none children).value,
        (graftAll host none children).overflow⟩ := by
  simp [graft, h]

/-- A way to host that mounts a tree in every slot it is given, if it stays within the depth. -/
def MountsAll (src : Source) (path : List (Choice × Span)) (host : Choice → Node → Limited Node) : Prop :=
  ∀ choice n, n.Fits src → choice? n.kind = some choice → n.bare = .leaf n.kind n.fullText n.span →
    (∀ outer ∈ path, Inside outer (choice, n.span)) → (host choice n).overflow = none →
    Mounted src path (host choice n).value ∧ (host choice n).value.bare = n.bare

mutual

/-- Grafting mounts a tree in every slot, and changes nothing else. -/
theorem graft_mounted {host : Choice → Node → Limited Node} (hhost : MountsAll src path host) : ∀ n : Node,
    Slotted (fun choice t => ∀ outer ∈ path, Inside outer (choice, t)) n → n.Fits src →
    (graft host none n).overflow = none →
    Mounted src path (graft host none n).value ∧ (graft host none n).value.bare = n.bare
  | .leaf kind text span, h, hfits, hlevels => by
      cases h with
      | slot slot leaf placed =>
          rw [graft_slot slot] at hlevels ⊢
          exact hhost _ _ hfits slot leaf placed hlevels
      | leaf plain =>
          rw [graft_leaf plain]
          exact ⟨.leaf plain, rfl⟩
  | .fault message hints text span, _, _, _ => ⟨.fault, rfl⟩
  | .inner kind span choice count faulty children, h, hfits, hlevels => by
      cases h with
      | slot slot leaf placed =>
          rw [graft_slot slot] at hlevels ⊢
          exact hhost _ _ hfits slot leaf placed hlevels
      | branch plain flag parts =>
          cases hfits with
          | inner _ _ _ tiles =>
              rw [graft_branch plain] at hlevels ⊢
              obtain ⟨hmounted, hbare⟩ := graftAll_mounted hhost children parts tiles hlevels
              dsimp only
              split
              · rename_i hnil
                obtain rfl := List.isEmpty_iff.mp hnil
                exact ⟨.branch plain flag fun child hchild => absurd hchild List.not_mem_nil, rfl⟩
              · refine ⟨.branch plain rfl hmounted, ?_⟩
                rw [Node.spanning, Node.bare, Node.bare, Node.bareOf_eq, Node.bareOf_eq, hbare]

theorem graftAll_mounted {host : Choice → Node → Limited Node} (hhost : MountsAll src path host) : ∀ ns : List Node,
    (∀ n ∈ ns, Slotted (fun choice t => ∀ outer ∈ path, Inside outer (choice, t)) n) → (∀ n ∈ ns, n.Fits src) →
    (graftAll host none ns).overflow = none →
    (∀ n ∈ (graftAll host none ns).value, Mounted src path n) ∧
      (graftAll host none ns).value.map Node.bare = ns.map Node.bare
  | [], _, _, _ => ⟨fun n hn => absurd hn List.not_mem_nil, rfl⟩
  | n :: ns, h, hfits, hlevels => by
      have hothers : (graftAll host (graft host none n).overflow ns).overflow = none := hlevels
      have hfirst := graftAll_overflow hothers
      rw [hfirst] at hothers
      obtain ⟨hmounted, hbare⟩ :=
        graft_mounted hhost n (h n List.mem_cons_self) (hfits n List.mem_cons_self) hfirst
      obtain ⟨hallMounted, hallBare⟩ := graftAll_mounted hhost ns (fun m hm => h m (List.mem_cons_of_mem n hm))
        (fun m hm => hfits m (List.mem_cons_of_mem n hm)) hothers
      unfold graftAll
      dsimp only
      rw [hfirst]
      refine ⟨fun m hm => ?_, ?_⟩
      · rcases List.mem_cons.mp hm with rfl | hm
        · exact hmounted
        · exact hallMounted m hm
      · rw [List.map_cons, List.map_cons, hbare, hallBare]

end

/-- The standard grammars offer what slots ask for. -/
theorem standard_offers {kind : Kind} {choice : Choice} (h : choice? kind = some choice) :
    ∃ g, GrammarSet.standard.get? choice.grammar = some g ∧ choice.entry ∈ g.entries := by
  have hmarkup : GrammarSet.standard.get? "markup" = some .markup := rfl
  have hscript : GrammarSet.standard.get? "script" = some .script := rfl
  unfold choice? at h
  split at h
  all_goals first
    | exact absurd h (Option.some_ne_none choice).symm
    | obtain rfl := Option.some.inj h
  · exact ⟨_, hscript, by decide⟩
  · exact ⟨_, hscript, by decide⟩
  · exact ⟨_, hscript, by decide⟩
  · exact ⟨_, hscript, by decide⟩
  · exact ⟨_, hmarkup, by decide⟩
  · exact ⟨_, hmarkup, by decide⟩

/-- The text of a mount is that of the slot. -/
theorem hosting_bare {n root : Node} {choice : Choice} (hn : n.Fits src) (hroot : root.Fits src)
    (hspan : root.span = n.span) (hleaf : n.bare = .leaf n.kind n.fullText n.span) :
    (Node.hosting n.kind n.span choice root).bare = n.bare := by
  have htext : (Node.hosting n.kind n.span choice root).fullText = n.fullText := by
    have hhosting : (Node.hosting n.kind n.span choice root).Fits src := hosting_fits hroot hspan
    have hmount := hhosting.holds_fullText (joinable_places src)
    exact hmount.2.2.symm.trans (hn.holds_fullText (joinable_places src)).2.2
  rw [hleaf, ← htext]
  rfl

/-- **A slot hosts the tree of its stretch, and so do all slots of that tree**, unless nesting gets too deep. -/
theorem hostNode_mounted (levels : Nat) (path : List (Choice × Span)) :
    MountsAll src path (hostNode .standard src levels path) := by
  induction levels generalizing path with
  | zero =>
      intro choice n hfits hslot hleaf hinside hlevels
      obtain ⟨g, hg, hentry⟩ := standard_offers hslot
      have hfree : (choice, n.span) ∉ path := fun hmem => (hinside _ hmem).irrefl
      have hhost : hostNode .standard src 0 path choice n = ⟨n, some n.start⟩ := by
        simp [hostNode, hg, hentry, hfree]
      rw [hhost] at hlevels
      exact absurd hlevels (Option.some_ne_none n.start)
  | succ levels ih =>
      intro choice n hfits hslot hleaf hinside hlevels
      obtain ⟨g, hg, hentry⟩ := standard_offers hslot
      have hfree : (choice, n.span) ∉ path := fun hmem => (hinside _ hmem).irrefl
      have hhost : hostNode .standard src (levels + 1) path choice n =
          let root := graft (hostNode .standard src levels ((choice, n.span) :: path))
            (g.parse src n.span choice.entry).overflow (g.parse src n.span choice.entry).value
          ⟨.hosting n.kind n.span choice root.value, root.overflow⟩ := by
        simp [hostNode, hg, hentry, hfree]
      rw [hhost] at hlevels ⊢
      have hcomplete := graft_overflow hlevels
      dsimp only at hlevels ⊢
      rw [hcomplete] at hlevels ⊢
      have hparsed := standard_faithful.get? hg src n.span choice.entry hfits.le hfits.stop_le
      have hslotted : Slotted (fun inner t => ∀ outer ∈ (choice, n.span) :: path, Inside outer (inner, t))
          (g.parse src n.span choice.entry).value := by
        refine (grammar_slotted hg hfits.le hfits.stop_le).weaken fun inner t hinner outer houter => ?_
        rcases List.mem_cons.mp houter with rfl | houter
        · exact hinner
        · exact (hinside outer houter).trans hinner
      obtain ⟨hmounted, hbare⟩ := graft_mounted (ih _) _ hslotted hparsed.1 hlevels
      have hroot := graft_fits (hostNode_fits standard_faithful levels ((choice, n.span) :: path)) none _ hparsed.1
      refine ⟨?_, hosting_bare hfits hroot.1 (hroot.2.trans hparsed.2) hleaf⟩
      exact .mount hslot hg hentry hcomplete rfl hbare hinside hmounted

/-- The tree of a text is that of the grammar of documents with a tree in every slot, and nothing else changed. -/
theorem parseSource_grafted {root : Node} (h : parseSource .standard src = .ok root) :
    Mounted src [] root ∧ root.bare = (readDocument src src.whole).value.bare := by
  have hmarkup : GrammarSet.standard.get? "markup" = some .markup := rfl
  have hfits := markup_faithful src src.whole "document" (Nat.zero_le _) (Nat.le_refl src.size)
  have hguarded : Guarded (Grammar.markup.parse src src.whole "document").value := readDocument_guarded src _
  unfold parseSource at h
  rw [hmarkup] at h
  dsimp only at h
  cases hoverflow : (graftRoot .standard src (Grammar.markup.parse src src.whole "document")).overflow with
  | some place =>
      rw [hoverflow] at h
      exact absurd h (by simp)
  | none =>
      rw [hoverflow] at h
      obtain rfl := Except.ok.inj h
      have hcomplete := graft_overflow hoverflow
      unfold graftRoot at hoverflow ⊢
      rw [hcomplete] at hoverflow ⊢
      have hslotted := guarded_slotted hguarded hfits.1 (Nat.le_refl _) (Nat.le_refl _)
      refine graft_mounted (hostNode_mounted maxDepth []) _ (hslotted.weaken ?_) hfits.1 hoverflow
      intro _ _ _ outer houter
      exact absurd houter List.not_mem_nil

/-- **Every slot of a text hosts the tree of its stretch.** -/
theorem parseSource_mounted {root : Node} (h : parseSource .standard src = .ok root) :
    Mounted src [] root :=
  (parseSource_grafted h).1

/-! ## Nodes of mounted trees -/

mutual

/-- The nodes below a mounted tree are mounted trees, perhaps inside more mounts. -/
theorem Mounted.outline (depth : Nat) : ∀ (n : Node) (path : List (Choice × Span)), Mounted src path n →
    ∀ m ∈ n.outline depth, ∃ more, Mounted src (more ++ path) m.2
  | .leaf kind text span, path, h, m, hm => by
      obtain rfl := List.mem_singleton.mp hm
      exact ⟨[], h⟩
  | .fault message hints text span, path, h, m, hm => by
      obtain rfl := List.mem_singleton.mp hm
      exact ⟨[], h⟩
  | .inner kind span host count faulty children, path, h, m, hm => by
      rw [Node.outline, List.mem_cons] at hm
      rcases hm with rfl | hm
      · exact ⟨[], h⟩
      · cases h with
        | branch plain flag parts => exact Mounted.outlineOf (depth + 1) children path parts m hm
        | @mount _ _ _ choice _ root _ slot found offered complete grafted bare inside below =>
            obtain ⟨more, hmore⟩ := Mounted.outlineOf (depth + 1) [root] ((choice, span) :: path)
              (fun child hchild => List.mem_singleton.mp hchild ▸ below) m hm
            refine ⟨more ++ [(choice, span)], ?_⟩
            rwa [List.append_assoc]

theorem Mounted.outlineOf (depth : Nat) : ∀ (ns : List Node) (path : List (Choice × Span)),
    (∀ n ∈ ns, Mounted src path n) → ∀ m ∈ Node.outlineOf depth ns, ∃ more, Mounted src (more ++ path) m.2
  | [], _, _, m, hm => absurd hm List.not_mem_nil
  | n :: ns, path, h, m, hm => by
      rw [Node.outlineOf, List.mem_append] at hm
      rcases hm with hm | hm
      · exact Mounted.outline depth n path (h n List.mem_cons_self) m hm
      · exact Mounted.outlineOf depth ns path (fun k hk => h k (List.mem_cons_of_mem n hk)) m hm

end

/-- A mount lies inside all mounts around it. -/
theorem Mounted.inside {n : Node} (h : Mounted src path n) {choice : Choice} (hhost : n.host? = some choice) :
    ∀ outer ∈ path, Inside outer (choice, n.span) := by
  cases h with
  | leaf => exact absurd hhost (Option.some_ne_none choice).symm
  | fault => exact absurd hhost (Option.some_ne_none choice).symm
  | branch => exact absurd hhost (Option.some_ne_none choice).symm
  | mount slot found offered complete grafted bare inside below =>
      obtain rfl := Option.some.inj hhost
      exact inside

/-- Only slots host a tree. -/
theorem Mounted.unhosted {n : Node} (h : Mounted src path n) (hplain : choice? n.kind = none) : n.host? = none := by
  cases h with
  | leaf => rfl
  | fault => rfl
  | branch => rfl
  | mount slot => exact absurd (slot.symm.trans hplain) (Option.some_ne_none _)

/-- Every slot hosts the tree of its stretch. -/
theorem Mounted.hosts {n : Node} (h : Mounted src path n) {choice : Choice} (hslot : choice? n.kind = some choice) :
    ∃ g root levels, n = .hosting n.kind n.span choice root ∧
      GrammarSet.standard.get? choice.grammar = some g ∧ choice.entry ∈ g.entries ∧
      (g.parse src n.span choice.entry).overflow = none ∧
      root = (graft (hostNode .standard src levels ((choice, n.span) :: path)) none
        (g.parse src n.span choice.entry).value).value ∧
      root.bare = (g.parse src n.span choice.entry).value.bare ∧ Mounted src ((choice, n.span) :: path) root := by
  cases h with
  | leaf plain => exact absurd (hslot.symm.trans plain) (Option.some_ne_none choice)
  | fault => exact absurd hslot (Option.some_ne_none choice).symm
  | branch plain => exact absurd (hslot.symm.trans plain) (Option.some_ne_none choice)
  | mount slot found offered complete grafted bare inside below =>
      obtain rfl := Option.some.inj (slot.symm.trans hslot)
      exact ⟨_, _, _, rfl, found, offered, complete, grafted, bare, below⟩

/-! ## Whole texts -/

section

variable {text : String} {root : Node}

/-- The tree of a text, its places counted in characters. -/
theorem parse_placed (h : parse text = .ok root) :
    ∃ placed, parseSource .standard (Source.ofString text) = .ok placed ∧
      root = placed.inBytes (Source.ofString text).byteOffsets := by
  unfold parse parseWith at h
  dsimp only at h
  cases hread : parseSource .standard (Source.ofString text) with
  | error e =>
      rw [hread] at h
      exact absurd h (by simp [Except.map])
  | ok placed =>
      rw [hread] at h
      exact ⟨placed, rfl, (Except.ok.inj h).symm⟩

/-- What a grammar reads between two places, all places told by their bytes. -/
theorem parseStretch_inBytes (g : Grammar) (entry : String) {a b : Nat} (hab : a ≤ b)
    (hb : b ≤ (Source.ofString text).size) :
    parseStretch? g text ⟨byteAt (Source.ofString text).byteOffsets a, byteAt (Source.ofString text).byteOffsets b⟩
        entry =
      some ⟨(g.parse (Source.ofString text) ⟨a, b⟩ entry).value.inBytes (Source.ofString text).byteOffsets,
        (g.parse (Source.ofString text) ⟨a, b⟩ entry).overflow.map
          (byteAt (Source.ofString text).byteOffsets)⟩ := by
  unfold parseStretch?
  dsimp only
  rw [Source.placeAt?_byteAt (Nat.le_trans hab hb), Source.placeAt?_byteAt hb]
  rfl

/-- **In the tree of a text every slot hosts the tree of its stretch.**  A node hosts a tree if and only if its
kind stands for another grammar.  It records which grammar and which entry point that is, and its only child is
the tree that the grammar reads in just that stretch, its own slots filled in the same way.  Mounts of one
grammar inside each other get smaller, so no stretch is ever read from one entry point while it is being read
from there. -/
theorem parse_mounted (h : parse text = .ok root) :
    ∀ m ∈ root.outline 0, (choice? m.2.kind = none → m.2.host? = none) ∧
      ∀ choice, choice? m.2.kind = some choice → ∃ g parsed hosted,
        GrammarSet.standard.get? choice.grammar = some g ∧ choice.entry ∈ g.entries ∧
        parseStretch? g text m.2.span choice.entry = some parsed ∧ parsed.overflow = none ∧
        m.2 = .hosting m.2.kind m.2.span choice hosted ∧ hosted.bare = parsed.value.bare ∧
        ∀ below ∈ hosted.outline 0, ∀ other, below.2.host? = some other →
          m.2.start ≤ below.2.start ∧ below.2.stop ≤ m.2.stop ∧
            (other.grammar = choice.grammar → below.2.span ≠ m.2.span) := by
  let src := Source.ofString text
  obtain ⟨placed, hplaced, rfl⟩ := parse_placed h
  have hwhole := (parseSource_fits standard_faithful hplaced).1
  intro m hm
  rw [Node.inBytes, Node.outline_mapPlaces] at hm
  obtain ⟨⟨depth, n⟩, hn, rfl⟩ := List.mem_map.mp hm
  obtain ⟨path, hmounted⟩ := (parseSource_mounted hplaced).outline 0 _ _ _ hn
  have hfits : n.Fits src := (Node.outline_tiles (joinable_places src) 0 _ hwhole _ hn).1
  dsimp only at hmounted ⊢
  rw [Node.kind_mapPlaces, Node.host?_mapPlaces, Node.span_mapPlaces, Node.start_mapPlaces, Node.stop_mapPlaces]
  refine ⟨hmounted.unhosted, fun choice hslot => ?_⟩
  obtain ⟨g, hosted, levels, hosting, found, offered, complete, -, bare, below⟩ := hmounted.hosts hslot
  refine ⟨g, _, hosted.inBytes src.byteOffsets, found, offered,
    parseStretch_inBytes g choice.entry hfits.le hfits.stop_le, congrArg (Option.map _) complete, ?_, ?_, ?_⟩
  · exact (congrArg (Node.mapPlaces _) hosting).trans (Node.hosting_mapPlaces _ n.kind n.span choice hosted)
  · rw [Node.inBytes, Node.inBytes, Node.bare_mapPlaces, Node.bare_mapPlaces, bare]
    rfl
  · intro m hm other hhost
    rw [Node.inBytes, Node.outline_mapPlaces] at hm
    obtain ⟨⟨depth', inner⟩, hinner, rfl⟩ := List.mem_map.mp hm
    dsimp only at hhost ⊢
    rw [Node.host?_mapPlaces] at hhost
    obtain ⟨more, hmore⟩ := below.outline 0 _ _ _ hinner
    have hinside := hmore.inside hhost _ (List.mem_append_right more List.mem_cons_self)
    have hwithin : inner.Fits src := by
      rw [hosting] at hfits
      cases hfits with
      | inner _ _ _ tiles =>
          exact (Node.outline_tiles (joinable_places src) 0 _ (tiles hosted List.mem_cons_self) _ hinner).1
    rw [Node.start_mapPlaces, Node.stop_mapPlaces, Node.span_mapPlaces]
    refine ⟨Source.byteAt_le hinside.1 (Nat.le_trans hwithin.le hwithin.stop_le),
      Source.byteAt_le hinside.2.1 hfits.stop_le, fun hsame heq => hinside.smaller hsame ?_⟩
    obtain ⟨hstart, hstop⟩ := Span.mk.inj heq
    refine Span.mk.injEq .. ▸ ⟨?_, ?_⟩
    · exact Source.byteAt_inj (Nat.le_trans hwithin.le hwithin.stop_le) (Nat.le_trans hfits.le hfits.stop_le) hstart
    · exact Source.byteAt_inj hwithin.stop_le hfits.stop_le hstop

/-- A command that fills the script it stands in, twice. -/
theorem parse_mounted_command :
    ∃ root, parse "@(#(#a))" = .ok root ∧
      ∀ m ∈ root.outline 0, (choice? m.2.kind = none → m.2.host? = none) ∧
        ∀ choice, choice? m.2.kind = some choice → ∃ g parsed hosted,
          GrammarSet.standard.get? choice.grammar = some g ∧ choice.entry ∈ g.entries ∧
          parseStretch? g "@(#(#a))" m.2.span choice.entry = some parsed ∧ parsed.overflow = none ∧
          m.2 = .hosting m.2.kind m.2.span choice hosted ∧ hosted.bare = parsed.value.bare ∧
          ∀ below ∈ hosted.outline 0, ∀ other, below.2.host? = some other →
            m.2.start ≤ below.2.start ∧ below.2.stop ≤ m.2.stop ∧
              (other.grammar = choice.grammar → below.2.span ≠ m.2.span) := by
  have hread : (parse "@(#(#a))").toBool = true := by decide +kernel
  cases h : parse "@(#(#a))" with
  | error e =>
      rw [h] at hread
      exact absurd hread Bool.false_ne_true
  | ok root => exact ⟨root, rfl, parse_mounted h⟩

end

end ComponentMarkup.Document
