import ComponentMarkup.Proofs.Text.Stretch
import ComponentMarkup.Proofs.Tree.Tiling

/-!
# Trees placed by characters and by bytes

A parser counts the places of a tree in characters; what leaves the library counts in bytes.  A tree that
tiles its text in one way of counting tiles it in the other.

* `Node.Tiles.mapPlaces` — moving all places keeps a tiling, if it keeps what stretches hold;
* `Node.Fits.inBytes` — so does the step from characters to bytes;
* `Node.branchAt_mapPlaces`, `Node.fullText_mapPlaces` — moving places commutes with how trees are built and
  spelled out.
-/

namespace ComponentMarkup.Tree

open ComponentMarkup.Text

/-- A tree that tiles a text, its places counted in characters. -/
abbrev Node.Fits (src : Source) (n : Node) : Prop :=
  n.Tiles src.Holds

/-- A tree that tiles a text, its places counted in bytes. -/
abbrev Node.Lossless (text : String) (n : Node) : Prop :=
  n.Tiles (HoldsBytes text)

/-- Stretches told in characters join. -/
theorem joinable_places (src : Source) : Joinable src.Holds :=
  ⟨fun h => h.1, fun hx hy => Source.Holds.join src hx hy⟩

/-- Stretches told in bytes join. -/
theorem joinable_bytes (text : String) : Joinable (HoldsBytes text) := by
  refine ⟨?_, fun hx hy => hx.join hy⟩
  rintro span part ⟨before, after, _, rfl⟩
  exact Nat.le_add_right _ _

theorem Node.mapPlacesOf_eq (f : Nat → Nat) (ns : List Node) :
    Node.mapPlacesOf f ns = ns.map (Node.mapPlaces f) := by
  induction ns with
  | nil => rfl
  | cons n ns ih => rw [Node.mapPlacesOf, ih, List.map_cons]

theorem Node.span_mapPlaces (f : Nat → Nat) (n : Node) :
    (n.mapPlaces f).span = ⟨f n.start, f n.stop⟩ := by
  cases n <;> rfl

/-- A chain stays one when all places are moved. -/
theorem Chain.mapPlaces (f : Nat → Nat) {a b : Nat} {ns : List Node} (h : Chain a b ns) :
    Chain (f a) (f b) (ns.map (Node.mapPlaces f)) := by
  induction ns generalizing a with
  | nil => exact congrArg f h
  | cons n ns ih =>
      have hspan := n.span_mapPlaces f
      refine ⟨?_, ?_⟩
      · rw [Node.start, hspan, h.1]
      · rw [Node.stop, hspan]
        exact ih h.2

/-- **Moving places keeps a tiling** if every stretch holds the same text before and after. -/
theorem Node.Tiles.mapPlaces {holds holds' : Span → String → Prop} {f : Nat → Nat}
    (hmap : ∀ {s part}, holds s part → holds' ⟨f s.start, f s.stop⟩ part) {n : Node}
    (h : n.Tiles holds) : (n.mapPlaces f).Tiles holds' := by
  induction h with
  | leaf text_eq => exact .leaf (hmap text_eq)
  | fault text_eq => exact .fault (hmap text_eq)
  | @inner kind span host count faulty children chain empty hosted _ ih =>
      rw [Node.mapPlaces, Node.mapPlacesOf_eq]
      refine .inner (chain.mapPlaces f) ?_ ?_ ?_
      · intro hnil
        exact hmap (empty (List.map_eq_nil_iff.mp hnil))
      · intro hhost
        rw [List.length_map]
        exact hosted hhost
      · intro child hchild
        obtain ⟨m, hm, rfl⟩ := List.mem_map.mp hchild
        exact ih m hm

/-- A tree that tiles its text keeps doing so with its places in bytes. -/
theorem Node.Fits.inBytes {text : String} {n : Node} (h : n.Fits (Source.ofString text)) :
    (n.inBytes (Source.ofString text).byteOffsets).Lossless text :=
  h.mapPlaces fun hs => hs.inBytes

/-! ## What moving places keeps -/

namespace Node

variable (f : Nat → Nat) (n : Node)

@[simp] theorem kind_mapPlaces : (n.mapPlaces f).kind = n.kind := by
  cases n <;> rfl

@[simp] theorem text_mapPlaces : (n.mapPlaces f).text = n.text := by
  cases n <;> rfl

@[simp] theorem count_mapPlaces : (n.mapPlaces f).count = n.count := by
  cases n <;> rfl

@[simp] theorem faulty_mapPlaces : (n.mapPlaces f).faulty = n.faulty := by
  cases n <;> rfl

@[simp] theorem isFault_mapPlaces : (n.mapPlaces f).isFault = n.isFault := by
  simp only [isFault, kind_mapPlaces]

@[simp] theorem start_mapPlaces : (n.mapPlaces f).start = f n.start :=
  congrArg Span.start (n.span_mapPlaces f)

@[simp] theorem stop_mapPlaces : (n.mapPlaces f).stop = f n.stop :=
  congrArg Span.stop (n.span_mapPlaces f)

theorem children_mapPlaces : (n.mapPlaces f).children = n.children.map (mapPlaces f) := by
  cases n with
  | leaf => rfl
  | fault => rfl
  | inner kind span host count faulty children => exact mapPlacesOf_eq f children

theorem withKind_mapPlaces (k : Kind) : (n.mapPlaces f).withKind k = (n.withKind k).mapPlaces f := by
  cases n <;> rfl

theorem hint_mapPlaces (text : String) : (n.mapPlaces f).hint text = (n.hint text).mapPlaces f := by
  cases n <;> rfl

/-- Moving the places of a branch moves those of its children. -/
theorem spanning_mapPlaces (kind : Kind) (s : Span) (host : Option Choice) (ns : List Node) :
    (spanning kind s host ns).mapPlaces f =
      spanning kind ⟨f s.start, f s.stop⟩ host (ns.map (mapPlaces f)) := by
  simp only [spanning, mapPlaces, mapPlacesOf_eq, List.foldr_map, List.any_map, count_mapPlaces,
    Function.comp_def, faulty_mapPlaces]

theorem branchAt_mapPlaces (kind : Kind) (place : Nat) (ns : List Node) :
    (branchAt kind place ns).mapPlaces f = branchAt kind (f place) (ns.map (mapPlaces f)) := by
  cases ns with
  | nil => exact spanning_mapPlaces f kind ⟨place, place⟩ none []
  | cons n ns =>
      have hlast : (n :: ns).getLast? = some ((n :: ns).getLast (List.cons_ne_nil n ns)) :=
        List.getLast?_eq_some_getLast _
      have hfirst : (List.map (mapPlaces f) (n :: ns)).head? = some (n.mapPlaces f) := rfl
      simp only [branchAt, branch, List.isEmpty_cons, Bool.false_eq_true, if_false, spanning_mapPlaces,
        List.isEmpty_map, List.getLast?_map, hlast, hfirst, List.head?_cons, Option.map_some,
        Option.getD_some, start_mapPlaces, stop_mapPlaces]

mutual

theorem leaves_mapPlaces : ∀ n : Node, (n.mapPlaces f).leaves = n.leaves.map (mapPlaces f)
  | leaf _ _ _ => rfl
  | fault _ _ _ _ => rfl
  | inner _ _ _ _ _ cs => leavesOf_mapPlaces cs

theorem leavesOf_mapPlaces : ∀ ns : List Node,
    leavesOf (mapPlacesOf f ns) = (leavesOf ns).map (mapPlaces f)
  | [] => rfl
  | n :: ns => by
      rw [mapPlacesOf, leavesOf, leavesOf, leaves_mapPlaces n, leavesOf_mapPlaces ns, List.map_append]

end

theorem fullText_mapPlaces : (n.mapPlaces f).fullText = n.fullText := by
  simp only [fullText, leaves_mapPlaces, List.map_map, Function.comp_def, text_mapPlaces]

mutual

/-- Moving places moves those of all nodes below. -/
theorem outline_mapPlaces (depth : Nat) : ∀ n : Node,
    (n.mapPlaces f).outline depth = (n.outline depth).map fun m => (m.1, m.2.mapPlaces f)
  | leaf _ _ _ => rfl
  | fault _ _ _ _ => rfl
  | inner k s host c b cs => by
      rw [mapPlaces, outline, outline, outlineOf_mapPlaces (depth + 1) cs, List.map_cons, mapPlaces]

theorem outlineOf_mapPlaces (depth : Nat) : ∀ ns : List Node,
    outlineOf depth (mapPlacesOf f ns) = (outlineOf depth ns).map fun m => (m.1, m.2.mapPlaces f)
  | [] => rfl
  | n :: ns => by
      rw [mapPlacesOf, outlineOf, outlineOf, outline_mapPlaces depth n, outlineOf_mapPlaces depth ns,
        List.map_append]

end

mutual

theorem mapPlaces_mapPlaces (g : Nat → Nat) : ∀ n : Node,
    (n.mapPlaces f).mapPlaces g = n.mapPlaces (g ∘ f)
  | leaf _ _ _ => rfl
  | fault _ _ _ _ => rfl
  | inner _ _ _ _ _ cs => congrArg (inner _ _ _ _ _) (mapPlacesOf_mapPlacesOf g cs)

theorem mapPlacesOf_mapPlacesOf (g : Nat → Nat) : ∀ ns : List Node,
    mapPlacesOf g (mapPlacesOf f ns) = mapPlacesOf (g ∘ f) ns
  | [] => rfl
  | n :: ns => by
      rw [mapPlacesOf, mapPlacesOf, mapPlacesOf, mapPlaces_mapPlaces g n, mapPlacesOf_mapPlacesOf g ns]

end

end Node

/-- Only the places of the text matter when those of a tree over it are moved. -/
theorem Node.Fits.mapPlaces_congr {src : Source} {f g : Nat → Nat} (hfg : ∀ i ≤ src.size, f i = g i)
    {n : Node} (h : n.Fits src) : n.mapPlaces f = n.mapPlaces g := by
  have hspan : ∀ {s part}, src.Holds s part → f s.start = g s.start ∧ f s.stop = g s.stop :=
    fun hs => ⟨hfg _ (Nat.le_trans hs.1 hs.2.1), hfg _ hs.2.1⟩
  have hwhole : f n.span.start = g n.span.start ∧ f n.span.stop = g n.span.stop :=
    hspan (h.holds_fullText (joinable_places src))
  induction h with
  | leaf text_eq => rw [Node.mapPlaces, Node.mapPlaces, (hspan text_eq).1, (hspan text_eq).2]
  | fault text_eq => rw [Node.mapPlaces, Node.mapPlaces, (hspan text_eq).1, (hspan text_eq).2]
  | @inner kind span host count faulty children chain empty hosted parts ih =>
      have hchildren : children.map (Node.mapPlaces f) = children.map (Node.mapPlaces g) :=
        List.map_congr_left fun child hchild =>
          ih child hchild (hspan ((parts child hchild).holds_fullText (joinable_places src)))
      rw [Node.mapPlaces, Node.mapPlaces, Node.mapPlacesOf_eq, Node.mapPlacesOf_eq, hchildren]
      simp only [Node.span] at hwhole
      rw [hwhole.1, hwhole.2]

/-! ## Single nodes -/

/-- The text of a tree is as long as the stretch it covers. -/
theorem Node.Fits.length_fullText {src : Source} {n : Node} (h : n.Fits src) :
    n.fullText.length = n.stop - n.start :=
  Source.Holds.length_eq src (h.holds_fullText (joinable_places src))

/-- No tree stops before it starts. -/
theorem Node.Fits.le {src : Source} {n : Node} (h : n.Fits src) : n.start ≤ n.stop :=
  Node.Tiles.le (joinable_places src) h

/-- No tree reaches behind the end of the text. -/
theorem Node.Fits.stop_le {src : Source} {n : Node} (h : n.Fits src) : n.stop ≤ src.size :=
  (h.holds_fullText (joinable_places src)).2.1

theorem leafOf_fits {src : Source} {kind : MarkupKind} {a b : Nat} (hab : a ≤ b)
    (hb : b ≤ src.size) : (leafOf src kind a b).Fits src :=
  .leaf (src.holds_text hab hb)

theorem leafOf_run {src : Source} {kind : MarkupKind} {a b : Nat} (hab : a ≤ b)
    (hb : b ≤ src.size) : Run src.Holds a b [leafOf src kind a b] :=
  Run.single (leafOf_fits hab hb)

/-- Another kind does not change what a tree covers. -/
theorem Node.Tiles.withKind {holds : Span → String → Prop} {n : Node} {k : Kind} (h : n.Tiles holds) :
    (n.withKind k).Tiles holds := by
  cases h with
  | leaf text_eq => exact .leaf text_eq
  | fault text_eq => exact .fault text_eq
  | inner chain empty hosted parts => exact .inner chain empty hosted parts

theorem Node.span_withKind (n : Node) (k : Kind) : (n.withKind k).span = n.span := by
  cases n <;> rfl

end ComponentMarkup.Tree
