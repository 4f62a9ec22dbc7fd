import ComponentMarkup.Proofs.Script.TokenLeaves

/-!
# Scripts as they are written

The leaves of a script, written one after the other, are the stretch that it was read from, and each of them is
what the lexer reads in front of those behind it.  Where a leaf stands does not matter for that.

* `Node.tips`, `Node.atoms` — the leaves of a script, an embedded command counting as one;
* `Legible` — atoms that the lexer reads one after the other;
* `MadeOfTokens.writtenOut` — the atoms of a script without faults are legible, and they are its text.
-/

namespace ComponentMarkup.Script

open ComponentMarkup.Text ComponentMarkup.Tree

/-- A token, white space, a comment or an embedded command of a script. -/
structure Atom where
  /-- What it is. -/
  kind : ScriptKind
  /-- Its characters. -/
  chars : List Char
  deriving DecidableEq

/-- The characters of atoms. -/
def writing (atoms : List Atom) : List Char :=
  atoms.flatMap Atom.chars

/-- An atom as the lexer reads it in front of a text, up to whether a word is reserved. -/
def Atom.ReadsIn (a : Atom) (rest : List Char) : Prop :=
  ∃ before c cs l, a.chars = c :: cs ∧ lexeme before c (cs ++ rest) = ⟨.ok l, cs.length + 1⟩ ∧
    l.category = a.kind.category

/-- Atoms that the lexer reads one after the other, in front of a text. -/
def Legible : List Atom → List Char → Prop
  | [], _ => True
  | a :: as, rest => a.ReadsIn (writing as ++ rest) ∧ Legible as rest

theorem writing_append (as bs : List Atom) : writing (as ++ bs) = writing as ++ writing bs :=
  List.flatMap_append

/-- Atoms are legible one part after the other. -/
theorem legible_append {as bs : List Atom} {rest : List Char} :
    Legible (as ++ bs) rest ↔ Legible as (writing bs ++ rest) ∧ Legible bs rest := by
  induction as with
  | nil => exact ⟨fun h => ⟨trivial, h⟩, fun h => h.2⟩
  | cons a as ih =>
      rw [List.cons_append, Legible, Legible, ih, writing_append, List.append_assoc, and_assoc]

end ComponentMarkup.Script

namespace ComponentMarkup.Tree.Node

open ComponentMarkup.Text ComponentMarkup.Script

mutual

/-- The leaves and faults of a script, in the order of the text.  An embedded command counts as one. -/
def tips : Node → List Node
  | leaf k t s => [leaf k t s]
  | inner k s h c b cs => if k == .script .embed then [inner k s h c b cs] else tipsOf cs
  | fault m hs t s => [fault m hs t s]

/-- The leaves and faults of several scripts. -/
def tipsOf : List Node → List Node
  | [] => []
  | c :: cs => tips c ++ tipsOf cs

end

theorem tipsOf_eq (ns : List Node) : tipsOf ns = ns.flatMap tips := by
  induction ns with
  | nil => rfl
  | cons n ns ih => rw [tipsOf, ih, List.flatMap_cons]

/-- What a leaf or a command is as an atom.  An empty one is none. -/
def atom? (n : Node) : Option Atom :=
  match n.kind with
  | .script k => if n.fullText.isEmpty then none else some ⟨k, n.fullText.toList⟩
  | _ => none

/-- The atoms of a script. -/
def atoms (n : Node) : List Atom :=
  n.tips.filterMap atom?

/-- A leaf that starts like a word is an identifier, unless its text is a reserved word. -/
def IsNamed (n : Node) : Prop :=
  ∀ k c, n.kind = .script k → n.fullText.toList.head? = some c → isWordStart c = true →
    reservedWord? n.fullText = none → k = .ident

/-! ## Moved places -/

variable (f : Nat → Nat)

mutual

theorem tips_mapPlaces : ∀ n : Node, (n.mapPlaces f).tips = n.tips.map (mapPlaces f)
  | leaf _ _ _ => rfl
  | fault _ _ _ _ => rfl
  | inner k s h c b cs => by
      rw [mapPlaces, tips, tips]
      split
      · rfl
      · exact tipsOf_mapPlaces cs

theorem tipsOf_mapPlaces : ∀ ns : List Node, tipsOf (mapPlacesOf f ns) = (tipsOf ns).map (mapPlaces f)
  | [] => rfl
  | n :: ns => by
      rw [mapPlacesOf, tipsOf, tipsOf, tips_mapPlaces n, tipsOf_mapPlaces ns, List.map_append]

end

theorem atom?_mapPlaces (n : Node) : (n.mapPlaces f).atom? = n.atom? := by
  rw [atom?, atom?, kind_mapPlaces, fullText_mapPlaces]

theorem isNamed_mapPlaces {n : Node} : (n.mapPlaces f).IsNamed ↔ n.IsNamed := by
  rw [IsNamed, IsNamed, kind_mapPlaces, fullText_mapPlaces]

/-- Atoms do not depend on where the script stands. -/
theorem atoms_mapPlaces (n : Node) : (n.mapPlaces f).atoms = n.atoms := by
  have hatom : atom? ∘ mapPlaces f = atom? := funext (atom?_mapPlaces f)
  rw [atoms, atoms, tips_mapPlaces, List.filterMap_map, hatom]

end ComponentMarkup.Tree.Node

namespace ComponentMarkup.Script

open ComponentMarkup.Text ComponentMarkup.Tree

variable {src : Source} {stop : Nat}

/-- A token that has the text of its stretch is an atom that reads in front of what follows. -/
theorem IsToken.readsIn {k : ScriptKind} {s : Span} {text : String} (h : IsToken src stop k s)
    (hholds : src.Holds s text) (hstop : s.stop ≤ stop) (hsize : stop ≤ src.size) :
    text.isEmpty = false ∧ (⟨k, text.toList⟩ : Atom).ReadsIn (src.slice s.stop stop) := by
  obtain ⟨before, c, cs, l, hslice, htoken, hcategory, -⟩ := h
  obtain ⟨hle, _, rfl⟩ := hholds
  obtain ⟨hpos, hfits⟩ := lexeme_fits before c cs
  rw [htoken] at hpos hfits
  dsimp only at hpos hfits
  obtain ⟨n, hn⟩ : ∃ n, s.stop - s.start = n + 1 := ⟨s.stop - s.start - 1, by omega⟩
  have hjoined : src.slice s.start s.stop ++ src.slice s.stop stop = c :: cs := by
    rw [src.slice_append hle hstop, hslice]
  have hlength : (src.slice s.start s.stop).length = n + 1 := by
    rw [src.length_slice (Nat.le_trans hstop hsize), hn]
  obtain ⟨d, ds, hds⟩ := List.exists_cons_of_length_eq_add_one hlength
  rw [hds, List.cons_append] at hjoined
  obtain ⟨rfl, rfl⟩ := List.cons.inj hjoined
  rw [hds, List.length_cons] at hlength
  have htext : (src.text s).toList = d :: ds := by rw [Source.text, String.toList_ofList, hds]
  refine ⟨?_, before, d, ds, l, htext, ?_, hcategory⟩
  · refine Bool.eq_false_iff.mpr fun hempty => ?_
    rw [String.isEmpty_iff.mp hempty] at htext
    exact absurd htext.symm (List.cons_ne_nil d ds)
  · rw [htoken, hn, hlength]

/-- A token that starts like a word and is not reserved is an identifier. -/
theorem IsToken.named {k : ScriptKind} {n : Node} (h : IsToken src stop k n.span) (hkind : n.kind = .script k)
    (hholds : src.Holds n.span n.fullText) (hstop : n.span.stop ≤ stop) : n.IsNamed := by
  intro k' d hkind' hfirst hstart hword
  obtain rfl := Kind.script.inj (hkind'.symm.trans hkind)
  obtain ⟨before, c, cs, l, hslice, htoken, -, hsame⟩ := h
  obtain ⟨hle, -, htext⟩ := hholds
  have hchars : n.fullText.toList = (c :: cs).take (n.span.stop - n.span.start) := by
    rw [← htext, ← hslice, src.slice_take (by omega), Nat.add_sub_cancel' hle]
    exact String.toList_ofList
  have hd : c = d := by
    rw [hchars, List.head?_take] at hfirst
    split at hfirst
    · exact absurd hfirst (Option.some_ne_none d).symm
    · exact Option.some.inj hfirst
  subst hd
  rw [lexeme_wordStart hstart] at htoken
  have hlength : n.span.stop - n.span.start = runLength isWordPart cs + 1 := (congrArg Lexeme.length htoken).symm
  have hwritten : n.fullText = String.ofList (c :: cs.takeWhile isWordPart) := by
    rw [hlength, List.take_succ_cons, take_runLength] at hchars
    rw [← hchars, String.ofList_toList]
  have hl : l = .ident := by
    have hread := Except.ok.inj (congrArg Lexeme.kind htoken)
    rw [← hwritten, hword] at hread
    simpa using hread.symm
  exact hsame.elim (·.trans hl) id

/-- A script whose atoms are its text and are read one after the other. -/
structure WrittenOut (src : Source) (stop : Nat) (atoms : List Atom) (s : Span) : Prop where
  legible : Legible atoms (src.slice s.stop stop)
  text : writing atoms = src.slice s.start s.stop

/-- Scripts that lead from one place to another are written out one after the other. -/
theorem WrittenOut.run {a b : Nat} {ns : List Node} (h : Run src.Holds a b ns)
    (hb : b ≤ stop) (hall : ∀ n ∈ ns, n.stop ≤ stop → WrittenOut src stop n.atoms n.span) :
    WrittenOut src stop (ns.flatMap Node.atoms) ⟨a, b⟩ := by
  induction ns generalizing a with
  | nil =>
      obtain rfl : a = b := h.chain
      exact ⟨trivial, (src.slice_self a).symm⟩
  | cons n ns ih =>
      obtain ⟨rfl, hn, htail⟩ := h.of_cons
      have hstop : n.stop ≤ b := htail.le (joinable_places src)
      have hle : n.start ≤ n.stop := hn.le (joinable_places src)
      have hfirst := hall n List.mem_cons_self (Nat.le_trans hstop hb)
      have hothers := ih htail fun m hm => hall m (List.mem_cons_of_mem n hm)
      have hrest : writing (ns.flatMap Node.atoms) ++ src.slice b stop = src.slice n.stop stop := by
        rw [hothers.text, src.slice_append hstop hb]
      rw [List.flatMap_cons]
      refine ⟨legible_append.mpr ⟨?_, hothers.legible⟩, ?_⟩
      · rw [hrest]
        exact hfirst.legible
      · rw [writing_append, hfirst.text, hothers.text]
        exact src.slice_append hle hstop

/-- A leaf or a command with a text is the only atom of itself. -/
theorem WrittenOut.single (hsize : stop ≤ src.size) {n : Node} {k : ScriptKind} (hfits : n.Fits src)
    (hstop : n.stop ≤ stop) (htips : n.tips = [n]) (hkind : n.kind = .script k)
    (hreads : IsToken src stop k n.span) : WrittenOut src stop n.atoms n.span := by
  have hholds := hfits.holds_fullText (joinable_places src)
  obtain ⟨hempty, hatom⟩ := hreads.readsIn hholds hstop hsize
  have hatoms : n.atoms = [⟨k, n.fullText.toList⟩] := by
    have hatom? : n.atom? = some ⟨k, n.fullText.toList⟩ := by
      rw [Node.atom?, hkind]
      dsimp only
      rw [hempty]
      rfl
    rw [Node.atoms, htips, List.filterMap_cons_some hatom?, List.filterMap_nil]
  obtain ⟨_, _, htext⟩ := hholds
  rw [hatoms]
  refine ⟨⟨hatom, trivial⟩, ?_⟩
  rw [writing, List.flatMap_cons, List.flatMap_nil, List.append_nil, ← htext, Source.text,
    String.toList_ofList]

/-- The atoms of a branch are those of its children. -/
theorem atoms_inner {k : Kind} (hk : k ≠ .script .embed) {s : Span} {host : Option Choice} {count : Nat}
    {faulty : Bool} {children : List Node} :
    (Node.inner k s host count faulty children).atoms = children.flatMap Node.atoms := by
  have hkind : (k == .script .embed) = false := beq_eq_false_iff_ne.mpr hk
  rw [Node.atoms, Node.tips, hkind, if_neg Bool.false_ne_true, Node.tipsOf_eq, List.filterMap_flatMap]
  rfl

/-- **The atoms of a script without faults are its text**, and the lexer reads them one after the other. -/
theorem MadeOfTokens.writtenOut (hsize : stop ≤ src.size) {n : Node} (h : MadeOfTokens src stop n)
    (hfits : n.Fits src) (hstop : n.stop ≤ stop) (hclean : n.faulty = false) :
    WrittenOut src stop n.atoms n.span := by
  induction h with
  | token reads => exact .single hsize hfits hstop rfl rfl reads
  | command reads => exact .single hsize hfits hstop rfl rfl reads
  | fault => exact absurd hclean (by simp [Node.faulty])
  | last =>
      cases hfits with
      | leaf text_eq =>
          obtain ⟨hle, hend, htext⟩ := text_eq
          refine ⟨trivial, ?_⟩
          rw [Source.text] at htext
          exact (String.ofList_eq_empty_iff.mp htext).symm
  | branch plain flag parts ih =>
      cases hfits with
      | inner chain empty hosted tiles =>
          rw [Node.faulty] at hclean
          rw [hclean] at flag
          have hchildren := List.any_eq_false.mp flag.symm
          have hkind : ∀ {k : ScriptKind}, k ≠ .embed → Kind.script k ≠ .script .embed := by
            rintro k hk heq
            exact hk (Kind.script.inj heq)
          rw [atoms_inner (hkind plain)]
          refine .run ⟨chain, tiles⟩ hstop fun child hchild hend => ?_
          exact ih child hchild (tiles child hchild) hend (Bool.eq_false_iff.mpr (hchildren child hchild))

end ComponentMarkup.Script
