import ComponentMarkup.Proofs.Document.Mounting
import ComponentMarkup.Proofs.Markup.BlockForms
import ComponentMarkup.Proofs.Markup.OpenBodies

/-!
# Trees of texts are formed

Trees of the grammar of documents are formed.  So are scripts, since nothing is said about their nodes.  Grafting
changes nothing but slots, about which nothing is said either, and the trees that it puts there are formed.  So whole
trees are formed, and what that says of a node holds wherever the node stands.

* `grammar_formed`, `Mounted.formed`, `parseSource_formed` — trees that are formed, without and with what they host;
* `Formed.descent` — what is known of a node below others;
* `parse_trivia` — white space, line breaks and marks of quotations hold nothing else;
* `parse_unclosed` — a body without its closing brace stands at the end of the text, and a command that is left open
  before that is text.
-/

namespace ComponentMarkup.Tree

open ComponentMarkup.Text

/-- Without what it hosts, a node is what it is, where it is. -/
theorem Node.tag_bare (n : Node) : n.bare.tag = n.tag := by
  cases n with
  | leaf kind text span => rfl
  | fault message hints text span => rfl
  | inner kind span host count faulty children =>
      cases host with
      | none => rfl
      | some choice => rfl

theorem Node.tags_bareOf (ns : List Node) : (bareOf ns).map tag = ns.map tag := by
  rw [bareOf_eq, List.map_map]
  exact List.map_congr_left fun n _ => n.tag_bare

end ComponentMarkup.Tree

namespace ComponentMarkup.Markup

open ComponentMarkup.Text ComponentMarkup.Tree

variable {src : Source} {quoted : Prop} {kind : Kind} {span : Span} {host other : Option Choice} {count total : Nat}
  {faulty flag : Bool} {children others : List Node} {root n : Node} {above : List Node}

/-! ## Formed trees and their children -/

theorem Formed.child (h : Formed src quoted root) (hn : n ∈ root.children) :
    Formed src (quoted ∨ root.kind = .markup .blockquote) n := by
  cases h with
  | branch _ _ _ parts => exact parts n hn
  | _ => exact absurd hn List.not_mem_nil

/-- What a branch has to satisfy depends on its children only by what they are and where they are. -/
theorem Formed.congr (h : Formed src quoted (.inner kind span host count faulty children))
    (htags : others.map Node.tag = children.map Node.tag)
    (hothers : ∀ m ∈ others, Formed src (quoted ∨ kind = .markup .blockquote) m) :
    Formed src quoted (.inner kind span other total flag others) := by
  cases h with
  | branch plain closed content parts =>
      refine .branch plain (fun hblock => (closed hblock).imp_left ?_) (fun k hk hholds => ?_) hothers
      · rintro ⟨brace, hbrace, hkind⟩
        obtain ⟨m, hm, htag⟩ := List.mem_map.mp (htags ▸ List.mem_map_of_mem hbrace)
        refine ⟨m, hm, ?_⟩
        rw [Node.isMarkup, show m.kind = brace.kind from congrArg Prod.fst htag]
        exact hkind
      · rw [htags]
        exact content k hk hholds

/-- White space, marks of quotations and line breaks are leaves, and hold nothing else. -/
theorem Formed.trivia (h : Formed src quoted n) :
    (n.kind = .markup .space → n.children = [] ∧ isAllWhite n.text.toList = true) ∧
    (n.kind = .markup .quoteMarker → n.children = [] ∧ n.text = ">" ∧ quoted) ∧
    (n.kind = .markup .newline → n.children = [] ∧ IsLineBreak quoted n.text.toList) := by
  have hother : (∀ k, n.kind = .markup k → k.isTrivia = false) → n.kind ≠ .markup .space ∧
      n.kind ≠ .markup .quoteMarker ∧ n.kind ≠ .markup .newline := fun hplain =>
    ⟨fun hk => absurd (hplain _ hk) (by decide), fun hk => absurd (hplain _ hk) (by decide),
      fun hk => absurd (hplain _ hk) (by decide)⟩
  cases h with
  | leaf ordinary =>
      obtain ⟨hspace, hmark, hline⟩ := hother fun k hk => (Formed.ordinary (ordinary k hk)).1.1
      exact ⟨fun hk => absurd hk hspace, fun hk => absurd hk hmark, fun hk => absurd hk hline⟩
  | space white => exact ⟨fun _ => ⟨rfl, white⟩, nofun, nofun⟩
  | quoteMarker inside => exact ⟨nofun, fun _ => ⟨rfl, rfl, inside⟩, nofun⟩
  | newline ends => exact ⟨nofun, nofun, fun _ => ⟨rfl, ends⟩⟩
  | fault => exact ⟨nofun, nofun, nofun⟩
  | branch plain =>
      obtain ⟨hspace, hmark, hline⟩ := hother plain
      exact ⟨fun hk => absurd hk hspace, fun hk => absurd hk hmark, fun hk => absurd hk hline⟩

/-- A body without its closing brace stands at the end of the text. -/
theorem Formed.closes (h : Formed src quoted n) (hkind : n.kind = .markup .contentBlock) :
    (∃ brace ∈ n.children, brace.isMarkup .rightBrace = true) ∨ isAllWhite (src.after n.stop) = true := by
  cases h with
  | leaf ordinary => exact absurd rfl (Formed.ordinary (ordinary _ hkind)).1.2
  | branch _ closed => exact closed hkind
  | _ => exact absurd hkind nofun

/-- What a node that holds inline content is made of. -/
theorem Formed.holds {k : MarkupKind} (h : Formed src quoted n) (hkind : n.kind = .markup k)
    (hholds : k.holdsInline = true) : HoldRegion src (modeOf k) (n.children.map Node.tag) := by
  cases h with
  | leaf ordinary => exact absurd ((Formed.ordinary (ordinary _ hkind)).2.symm.trans hholds) Bool.false_ne_true
  | branch _ _ content => exact content k hkind hholds
  | fault => exact absurd hkind nofun
  | _ =>
      obtain rfl := Kind.markup.inj hkind
      exact absurd hholds Bool.false_ne_true

/-- Branches of other grammars, and those that stand for one, are formed if their children are. -/
theorem Formed.foreign (hkind : ∀ k, kind = .markup k → k.isOrdinary = true)
    (hchildren : ∀ m ∈ children, Formed src quoted m) :
    Formed src quoted (.inner kind span host count faulty children) := by
  refine .branch (fun k hk => (Formed.ordinary (hkind k hk)).1.1)
    (fun hblock => absurd rfl (Formed.ordinary (hkind _ hblock)).1.2) (fun k hk hholds => ?_)
    fun m hm => (hchildren m hm).mono .inl
  rw [(Formed.ordinary (hkind k hk)).2] at hholds
  exact absurd hholds Bool.false_ne_true

/-- A node below others is formed.  It stands in a quotation if the tree does, or if one of the others is one. -/
theorem Formed.descent (h : Formed src quoted root) (hn : root.Descent above n) :
    Formed src (quoted ∨ ∃ a ∈ above, a.kind = .markup .blockquote) n := by
  induction hn with
  | root => exact h.mono .inl
  | @child above parent n _ mem ih =>
      refine (ih.child mem).mono ?_
      rintro ((hquoted | ⟨a, ha, hkind⟩) | hparent)
      · exact .inl hquoted
      · exact .inr ⟨a, List.mem_cons_of_mem _ ha, hkind⟩
      · exact .inr ⟨parent, List.mem_cons_self, hparent⟩

end ComponentMarkup.Markup

namespace ComponentMarkup.Document

open ComponentMarkup.Text ComponentMarkup.Tree ComponentMarkup.Script ComponentMarkup.Markup

variable {src : Source} {s : Span} {quoted : Prop} {path : List (Choice × Span)} {root n : Node}

/-! ## Trees of one grammar -/

/-- Kinds that stand for another grammar are ordinary. -/
theorem choice?_ordinary {kind : Kind} {choice : Choice} (h : choice? kind = some choice) :
    ∀ k, kind = .markup k → k.isOrdinary = true := by
  rintro k rfl
  cases k
  all_goals first
    | rfl
    | exact absurd h (Option.some_ne_none choice).symm

/-- A tree is formed without what its slots host. -/
theorem slotted_formed {place : Choice → Span → Prop} (h : Slotted place n) (hformed : Formed src quoted n) :
    Formed src quoted n.bare := by
  induction h generalizing quoted with
  | slot slot leaf => exact leaf ▸ .leaf (choice?_ordinary slot)
  | leaf => exact hformed
  | fault => exact hformed
  | branch plain flag parts ih =>
      refine hformed.congr (Node.tags_bareOf _) fun m hm => ?_
      rw [Node.bareOf_eq] at hm
      obtain ⟨child, hchild, rfl⟩ := List.mem_map.mp hm
      exact ih child hchild (hformed.child hchild)

/-- No kind of script is a kind of document. -/
theorem script_ordinary (kind : ScriptKind) : ∀ k, Kind.script kind = .markup k → k.isOrdinary = true := by
  intro k h
  cases h

/-- Scripts are formed. -/
theorem madeOfTokens_formed {stop : Nat} (h : MadeOfTokens src stop n) : Formed src quoted n.bare := by
  induction h with
  | token => exact .leaf (script_ordinary _)
  | last => exact .leaf (script_ordinary _)
  | fault => exact .fault
  | branch plain flag parts ih =>
      refine .foreign (script_ordinary _) fun m hm => ?_
      rw [Node.bareOf_eq] at hm
      obtain ⟨child, hchild, rfl⟩ := List.mem_map.mp hm
      exact ih child hchild
  | command => exact .leaf (script_ordinary _)

/-- **What a standard grammar reads is formed**, its slots empty. -/
theorem grammar_formed {choice : Choice} {g : Grammar} (hg : GrammarSet.standard.get? choice.grammar = some g)
    (hle : s.start ≤ s.stop) (hstop : s.stop ≤ src.size) :
    Formed src quoted (g.parse src s choice.entry).value.bare := by
  have hslotted := grammar_slotted hg hle hstop
  have hmember : g ∈ [Grammar.markup, Grammar.script] := List.mem_of_find?_eq_some hg
  rcases List.mem_pair.mp hmember with rfl | rfl
  · refine slotted_formed hslotted ?_
    unfold Grammar.markup
    dsimp only
    split
    · exact readInlineContent_formed hle hstop
    · exact readDocument_formed hle hstop
  · show Formed src quoted (readNamed src s choice.entry).value.bare
    unfold readNamed
    split
    · exact madeOfTokens_formed (readEntry_tokens hle hstop _)
    · exact .foreign (script_ordinary _) fun m hm => List.mem_singleton.mp hm ▸ .fault

/-! ## Whole trees -/

/-- **A tree is formed with all that it hosts** if it is formed without. -/
theorem Mounted.formed (h : Mounted src path n) (hfits : n.Fits src) (hbare : Formed src quoted n.bare) :
    Formed src quoted n := by
  induction h generalizing quoted with
  | leaf => exact hbare
  | fault => exact hbare
  | @branch path kind span count faulty children plain flag parts ih =>
      cases hfits with
      | inner _ _ _ tiles =>
          refine hbare.congr (Node.tags_bareOf _).symm fun child hchild => ?_
          refine ih child hchild (tiles child hchild) (hbare.child ?_)
          show child.bare ∈ Node.bareOf children
          rw [Node.bareOf_eq]
          exact List.mem_map_of_mem hchild
  | @mount path kind span choice g root levels slot found _ _ _ bare _ _ ih =>
      have hroot : Formed src quoted (g.parse src span choice.entry).value.bare :=
        grammar_formed found hfits.le hfits.stop_le
      cases hfits with
      | inner _ _ _ tiles =>
          refine .foreign (choice?_ordinary slot) fun m hm => ?_
          obtain rfl := List.mem_singleton.mp hm
          exact ih (tiles _ hm) (bare ▸ hroot)

/-- **The tree of a text is formed.** -/
theorem parseSource_formed (h : parseSource .standard src = .ok root) : Formed src False root := by
  obtain ⟨hmounted, hbare⟩ := parseSource_grafted h
  have hmarkup : GrammarSet.standard.get? (Choice.mk "markup" "document").grammar = some .markup := rfl
  refine hmounted.formed (parseSource_fits standard_faithful h).1 ?_
  rw [hbare]
  exact grammar_formed hmarkup (Nat.zero_le _) (Nat.le_refl src.size)

/-! ## Whole texts -/

section

variable {text : String}

/-- A node of the tree of a text, its places counted in bytes, is formed where its places are counted in characters. -/
theorem parse_formed (h : parse text = .ok root) {above : List Node} (hn : root.Descent above n) :
    ∃ m, n = m.inBytes (Source.ofString text).byteOffsets ∧ m.Fits (Source.ofString text) ∧
      Formed (Source.ofString text) (∃ a ∈ above, a.kind = .markup .blockquote) m := by
  obtain ⟨placed, hplaced, rfl⟩ := parse_placed h
  obtain ⟨old, m, hm, rfl, rfl⟩ := Node.Descent.of_mapPlaces hn
  refine ⟨m, rfl, hm.tiles (parseSource_fits standard_faithful hplaced).1, ?_⟩
  refine ((parseSource_formed hplaced).descent hm).mono ?_
  rintro (hfalse | ⟨a, ha, hkind⟩)
  · exact hfalse.elim
  · exact ⟨_, List.mem_map_of_mem ha, (a.kind_mapPlaces _).trans hkind⟩

/-- **No text of an author is taken for trivia.**  White space holds white space only; a mark of a quotation is one sign
inside a quotation; a line break is one line end, and then only indentation and marks of the quotations around it. -/
theorem parse_trivia (h : parse text = .ok root) : ∀ above n, root.Descent above n →
    (n.kind = .markup .space → n.children = [] ∧ isAllWhite n.text.toList = true) ∧
    (n.kind = .markup .quoteMarker →
      n.children = [] ∧ n.text = ">" ∧ ∃ a ∈ above, a.kind = .markup .blockquote) ∧
    (n.kind = .markup .newline →
      n.children = [] ∧ IsLineBreak (∃ a ∈ above, a.kind = .markup .blockquote) n.text.toList) := by
  intro above n hn
  obtain ⟨m, rfl, -, hformed⟩ := parse_formed h hn
  have hchildren : m.children = [] → (m.inBytes (Source.ofString text).byteOffsets).children = [] := fun hnil => by
    rw [Node.inBytes, Node.children_mapPlaces, hnil]
    rfl
  obtain ⟨hspace, hmark, hline⟩ := hformed.trivia
  rw [Node.inBytes, Node.kind_mapPlaces, Node.text_mapPlaces]
  exact ⟨fun hk => (hspace hk).imp_left hchildren, fun hk => (hmark hk).imp_left hchildren,
    fun hk => (hline hk).imp_left hchildren⟩

/-- A quotation of two lines. -/
theorem parse_trivia_quotation : ∃ root, parse "> a\n> b" = .ok root ∧ ∀ above n, root.Descent above n →
    (n.kind = .markup .space → n.children = [] ∧ isAllWhite n.text.toList = true) ∧
    (n.kind = .markup .quoteMarker →
      n.children = [] ∧ n.text = ">" ∧ ∃ a ∈ above, a.kind = .markup .blockquote) ∧
    (n.kind = .markup .newline →
      n.children = [] ∧ IsLineBreak (∃ a ∈ above, a.kind = .markup .blockquote) n.text.toList) := by
  have hread : (parse "> a\n> b").toBool = true := by decide +kernel
  cases h : parse "> a\n> b" with
  | error e =>
      rw [h] at hread
      exact absurd hread Bool.false_ne_true
  | ok root => exact ⟨root, rfl, parse_trivia h⟩

/-- Nothing but white space follows a byte of a text. -/
def EndsAt (text : String) (byte : Nat) : Prop :=
  ∃ before after, text = before ++ after ∧ before.utf8ByteSize = byte ∧ isAllWhite after.toList = true

/-- What a region of a text is read as, all places told by their bytes.  If more than white space follows the region,
then all delimiters that still wait when it has been read are inside of texts.  For a command whose body is not closed,
these are its head and the brace that opened the body. -/
def IsReading (text : String) (mode : Mode) (region : List Node) : Prop :=
  let src := Source.ofString text
  let byte := byteAt src.byteOffsets
  ∃ levels segments lo hi, Text.Region lo hi segments ∧ hi ≤ src.size ∧
    region.map Node.tag = ((inlineNodes src levels segments mode).value.map (Node.mapPlaces byte)).map Node.tag ∧
    (¬EndsAt text (byte hi) → ∀ d, .waiting d ∈ (regionEnd src levels segments mode).parts →
      InText region ⟨byte d.span.start, byte d.span.stop⟩)

theorem endsAt_byteAt {i : Nat} (hi : i ≤ (Source.ofString text).size)
    (hwhite : isAllWhite ((Source.ofString text).after i) = true) :
    EndsAt text (byteAt (Source.ofString text).byteOffsets i) := by
  refine ⟨String.ofList (text.toList.take i), String.ofList (text.toList.drop i), ?_, ?_, ?_⟩
  · rw [← String.ofList_append, List.take_append_drop, String.ofList_toList]
  · exact (Source.byteAt_byteOffsets _ hi).symm
  · rw [String.toList_ofList]
    rw [Source.after, Source.slice_eq] at hwhite
    have hall : (text.toList.drop i).take ((Source.ofString text).size - i) = text.toList.drop i := by
      rw [List.take_of_length_le]
      rw [List.length_drop, String.length_toList, Source.size_ofString]
    rwa [← hall]

/-- Moving places moves those that tags tell. -/
theorem tags_mapPlaces {ns ms : List Node} (f : Nat → Nat) (h : ns.map Node.tag = ms.map Node.tag) :
    (ns.map (Node.mapPlaces f)).map Node.tag = (ms.map (Node.mapPlaces f)).map Node.tag := by
  have htag : ∀ n : Node, (n.mapPlaces f).tag = (n.tag.1, ⟨f n.tag.2.start, f n.tag.2.stop⟩) := fun n => by
    rw [Node.tag, Node.kind_mapPlaces, Node.span_mapPlaces]
    rfl
  have hmoved : ∀ ns : List Node, (ns.map (Node.mapPlaces f)).map Node.tag =
      (ns.map Node.tag).map fun tag => (tag.1, ⟨f tag.2.start, f tag.2.stop⟩) := fun ns => by
    rw [List.map_map, List.map_map]
    exact List.map_congr_left fun n _ => htag n
  rw [hmoved, hmoved, h]

/-- The nodes of a region are its reading. -/
theorem isReading_inBytes {levels lo hi : Nat} {segments : List Span} {mode : Mode} {region : List Node}
    (hregion : Text.Region lo hi segments) (hhi : hi ≤ (Source.ofString text).size)
    (htags : region.map Node.tag = (inlineNodes (Source.ofString text) levels segments mode).value.map Node.tag) :
    IsReading text mode (region.map (Node.mapPlaces (byteAt (Source.ofString text).byteOffsets))) := by
  refine ⟨levels, segments, lo, hi, hregion, hhi, tags_mapPlaces _ htags, fun hmore d hd => ?_⟩
  have hmore : isAllWhite ((Source.ofString text).after hi) = false := by
    rw [← Bool.not_eq_true]
    exact fun hwhite => hmore (endsAt_byteAt hhi hwhite)
  obtain ⟨c, hc, hkind, hfrom, hto⟩ := inlineNodes_unclosed levels mode hregion hhi hmore d hd
  have hwaits : d.Sound (Source.ofString text) := (regionEnd_stack levels mode hregion hhi).sound _ hd
  have hend := (inlineNodes_run levels hregion hhi mode).stop_le (joinable_places _) hc
  obtain ⟨r, hr, htag⟩ := List.mem_map.mp (htags ▸ List.mem_map_of_mem hc)
  obtain ⟨hsame, hspan⟩ := Prod.mk.inj htag
  refine ⟨_, List.mem_map_of_mem hr, (r.kind_mapPlaces _).trans (hsame.trans hkind), ?_, ?_⟩
  · rw [Node.start_mapPlaces, show r.start = c.start from congrArg Span.start hspan]
    exact Source.byteAt_le hfrom (Nat.le_trans (Nat.le_of_lt hwaits.lt) hwaits.stop_le)
  · rw [Node.stop_mapPlaces, show r.stop = c.stop from congrArg Span.stop hspan]
    exact Source.byteAt_le hto (Nat.le_trans hend hhi)

/-- **Bodies are left open only at the end of a text.**  If a body has no closing brace, then nothing but white space
follows it in all of the text.  Inline content is nothing, a single text or what its region is read as, with nothing
around it but the mark of a heading and white space.  If more than white space follows the region, then for each body
that is not closed in it, the head of its command and the brace that opened it are inside of texts. -/
theorem parse_unclosed (h : parse text = .ok root) : ∀ n, Node.Within root n →
    (n.kind = .markup .contentBlock → n.child? .rightBrace = none → EndsAt text n.stop) ∧
    (∀ k, n.kind = .markup k → k.holdsInline = true → ∃ front region back, n.children = front ++ region ++ back ∧
      (∀ c ∈ front ++ back, c.kind = .markup .headingMarker ∨ c.kind = .markup .space) ∧
      (region = [] ∨ (∃ c, region = [c] ∧ c.kind = .markup .text) ∨ IsReading text (modeOf k) region)) := by
  intro n hn
  obtain ⟨above, habove⟩ := hn.descent
  obtain ⟨m, rfl, hfits, hformed⟩ := parse_formed h habove
  rw [Node.inBytes, Node.kind_mapPlaces]
  constructor
  · intro hkind hopen
    rcases hformed.closes hkind with ⟨brace, hbrace, hright⟩ | hwhite
    · unfold Node.child? Node.find? at hopen
      rw [Node.children_mapPlaces] at hopen
      have hno := List.find?_eq_none.mp hopen _ (List.mem_map_of_mem hbrace)
      rw [Node.kind_mapPlaces] at hno
      exact absurd hright hno
    · rw [Node.stop_mapPlaces]
      exact endsAt_byteAt hfits.stop_le hwhite
  · intro k hkind hholds
    obtain ⟨front, region, back, hsplit, hregion, haround⟩ := hformed.holds hkind hholds
    obtain ⟨inner, backs, hinner, hleft, hback⟩ := List.map_eq_append_iff.mp hsplit
    obtain ⟨fronts, middle, hmiddle, hfront, hmid⟩ := List.map_eq_append_iff.mp hleft
    let move := Node.mapPlaces (byteAt (Source.ofString text).byteOffsets)
    refine ⟨fronts.map move, middle.map move, backs.map move, ?_, ?_, ?_⟩
    · rw [Node.children_mapPlaces, hinner, hmiddle, List.map_append, List.map_append]
    · intro c hc
      rw [← List.map_append] at hc
      obtain ⟨old, hold, rfl⟩ := List.mem_map.mp hc
      rw [Node.kind_mapPlaces]
      refine haround old.tag ?_
      rw [← hfront, ← hback, ← List.map_append]
      exact List.mem_map_of_mem hold
    · rcases hregion with hnone | ⟨s, htext⟩ | ⟨levels, segments, lo, hi, hlines, hhi, htags⟩
      · refine .inl ?_
        rw [List.map_eq_nil_iff.mp (hmid.trans hnone)]
        rfl
      · obtain ⟨c, rfl, htag⟩ := List.map_eq_singleton_iff.mp (hmid.trans htext)
        exact .inr (.inl ⟨_, rfl, (c.kind_mapPlaces _).trans (congrArg Prod.fst htag)⟩)
      · exact .inr (.inr (isReading_inBytes hlines hhi (hmid.trans htags)))

/-- A body that is left open before the end of a text, and one at its end. -/
theorem parse_unclosed_twice : ∃ root, parse "@a\x7bb\n\n@c\x7bd\n" = .ok root ∧ ∀ n, Node.Within root n →
    (n.kind = .markup .contentBlock → n.child? .rightBrace = none → EndsAt "@a\x7bb\n\n@c\x7bd\n" n.stop) ∧
    (∀ k, n.kind = .markup k → k.holdsInline = true → ∃ front region back, n.children = front ++ region ++ back ∧
      (∀ c ∈ front ++ back, c.kind = .markup .headingMarker ∨ c.kind = .markup .space) ∧
      (region = [] ∨ (∃ c, region = [c] ∧ c.kind = .markup .text) ∨
        IsReading "@a\x7bb\n\n@c\x7bd\n" (modeOf k) region)) := by
  have hread : (parse "@a\x7bb\n\n@c\x7bd\n").toBool = true := by decide +kernel
  cases h : parse "@a\x7bb\n\n@c\x7bd\n" with
  | error e =>
      rw [h] at hread
      exact absurd hread Bool.false_ne_true
  | ok root => exact ⟨root, rfl, parse_unclosed h⟩

end

end ComponentMarkup.Document
