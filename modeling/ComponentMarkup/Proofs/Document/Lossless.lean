import ComponentMarkup.Document.Parse
import ComponentMarkup.Proofs.Markup.BlockTiling
import ComponentMarkup.Proofs.Script.GrammarTiling

/-!
# Trees keep every byte of their text

The tree of a text is read by several grammars: one reads the document, and the trees of the others are put
into the nodes whose text belongs to them.  Each of these trees covers its stretch exactly, and a node that
takes in the tree of its own stretch still covers what it covered.  So every byte of the text stands in
exactly one leaf or fault of the tree, in order.

* `Grammar.Faithful` — a grammar whose trees cover their stretches;
* `hostNode_fits`, `graftRoot_fits` — grafting keeps what a tree covers;
* `GrammarSet.Reduced` — the sets left of the standard one when entry points or the scripts are taken off;
* `parseWith_lossless` — a text read with such a set is covered by its tree;
* `scriptStretch_lossless`, `markupStretch_lossless` — so is a stretch of a text, read by one grammar alone.
-/

namespace ComponentMarkup.Document

open ComponentMarkup.Text ComponentMarkup.Tree

variable {src : Source} {text : String} {set : GrammarSet}

/-! ## Faithful grammars -/

/-- A grammar whose trees cover their stretches, whatever the text and the entry point. -/
def Grammar.Faithful (g : Grammar) : Prop :=
  ∀ (src : Source) (s : Span) (entry : String), s.start ≤ s.stop → s.stop ≤ src.size →
    (g.parse src s entry).value.Fits src ∧ (g.parse src s entry).value.span = s

/-- The grammar of documents is faithful. -/
theorem markup_faithful : Grammar.markup.Faithful := by
  intro src s entry hle hstop
  unfold Grammar.markup
  dsimp only
  split
  · exact Markup.readInlineContent_fits hle hstop
  · exact Markup.readDocument_fits hle hstop

/-- The grammar of scripts is faithful. -/
theorem script_faithful : Grammar.script.Faithful :=
  fun _ _ entry hle hstop => Script.readNamed_fits entry hle hstop

/-- Entry points that are on offer or not do not change how a grammar reads. -/
theorem Grammar.Faithful.restrict {g : Grammar} (h : g.Faithful) (entries : List String) :
    (g.restrict entries).Faithful :=
  h

/-- A set of faithful grammars. -/
def GrammarSet.Faithful (set : GrammarSet) : Prop :=
  ∀ g ∈ set.grammars, g.Faithful

/-- A grammar less leaves a set faithful. -/
theorem GrammarSet.Faithful.unregister (h : set.Faithful) (name : String) :
    (set.unregister name).Faithful :=
  fun g hg => h g (List.mem_filter.mp hg).1

/-- A faithful grammar more leaves a set faithful. -/
theorem GrammarSet.Faithful.register (h : set.Faithful) {g : Grammar} (hg : g.Faithful) :
    (set.register g).Faithful := by
  intro other hother
  rcases List.mem_append.mp hother with hother | hother
  · exact h.unregister g.name other hother
  · obtain rfl := List.mem_singleton.mp hother
    exact hg

/-- The standard grammars are faithful. -/
theorem standard_faithful : GrammarSet.standard.Faithful := by
  have hempty : GrammarSet.empty.Faithful := fun g hg => absurd hg List.not_mem_nil
  exact (hempty.register markup_faithful).register script_faithful

/-- The grammar found by its name is one of the set. -/
theorem GrammarSet.Faithful.get? (h : set.Faithful) {name : String} {g : Grammar}
    (hg : set.get? name = some g) : g.Faithful :=
  h g (List.mem_of_find?_eq_some hg)

/-! ## Grafting -/

/-- A way to host grammars that keeps what a node covers. -/
def Keeps (src : Source) (host : Choice → Node → Limited Node) : Prop :=
  ∀ (choice : Choice) (n : Node), n.Fits src →
    (host choice n).value.Fits src ∧ (host choice n).value.span = n.span

mutual

/-- Grafting keeps what a tree covers. -/
theorem graft_fits {host : Choice → Node → Limited Node} (hhost : Keeps src host)
    (overflow : Option Nat) : ∀ n : Node, n.Fits src →
      (graft host overflow n).value.Fits src ∧ (graft host overflow n).value.span = n.span
  | .leaf k t s, h => by
      unfold graft
      split
      · exact ⟨h, rfl⟩
      · split
        · exact hhost _ _ h
        · exact ⟨h, rfl⟩
  | .fault m hs t s, h => ⟨h, rfl⟩
  | .inner k s c count faulty cs, h => by
      unfold graft
      split
      · exact ⟨h, rfl⟩
      · split
        · exact hhost _ _ h
        · dsimp only
          split
          · exact ⟨h, rfl⟩
          · rename_i hsome
            cases h with
            | inner chain empty hosted parts =>
                obtain ⟨hspans, hparts⟩ := graftAll_fits hhost none cs parts
                have hlength := congrArg List.length hspans
                rw [List.length_map, List.length_map] at hlength
                refine ⟨.inner (chain.congr hspans) ?_ ?_ hparts, rfl⟩
                · intro hnil
                  rw [hnil, List.length_nil] at hlength
                  exact empty (List.length_eq_zero_iff.mp hlength.symm)
                · intro hs
                  rw [hlength]
                  exact hosted hs

/-- Grafting several trees keeps what each of them covers. -/
theorem graftAll_fits {host : Choice → Node → Limited Node} (hhost : Keeps src host)
    (overflow : Option Nat) : ∀ ns : List Node, (∀ n ∈ ns, n.Fits src) →
      (graftAll host overflow ns).value.map Node.span = ns.map Node.span ∧
        ∀ n ∈ (graftAll host overflow ns).value, n.Fits src
  | [], _ => ⟨rfl, fun n hn => absurd hn List.not_mem_nil⟩
  | n :: ns, h => by
      obtain ⟨hfits, hspan⟩ := graft_fits hhost overflow n (h n List.mem_cons_self)
      obtain ⟨hspans, hothers⟩ := graftAll_fits hhost (graft host overflow n).overflow ns
        fun m hm => h m (List.mem_cons_of_mem _ hm)
      unfold graftAll
      refine ⟨?_, ?_⟩
      · rw [List.map_cons, List.map_cons, hspan, hspans]
      · intro m hm
        rcases List.mem_cons.mp hm with rfl | hm
        · exact hfits
        · exact hothers m hm

end

/-- A node that hosts a tree of its own stretch covers it. -/
theorem hosting_fits {kind : Kind} {s : Span} {choice : Choice} {root : Node} (h : root.Fits src)
    (hspan : root.span = s) : (Node.hosting kind s choice root).Fits src := by
  have hchain : Chain s.start s.stop [root] := by
    rw [← hspan]
    exact ⟨rfl, rfl⟩
  refine .inner hchain (fun hnil => absurd hnil (List.cons_ne_nil _ _)) (fun _ => rfl) ?_
  intro child hchild
  obtain rfl := List.mem_singleton.mp hchild
  exact h

/-- **A node keeps what it covers when it hosts its grammar**, and what that grammar reads hosts others. -/
theorem hostNode_fits (hset : set.Faithful) (levels : Nat) (path : List (Choice × Span)) :
    Keeps src (hostNode set src levels path) := by
  induction levels generalizing path with
  | zero =>
      intro choice n hn
      unfold hostNode
      split
      · exact ⟨hn, rfl⟩
      · split
        · exact ⟨hn, rfl⟩
        · exact ⟨hn, rfl⟩
  | succ levels ih =>
      intro choice n hn
      unfold hostNode
      split
      · exact ⟨hn, rfl⟩
      · rename_i g hg
        split
        · exact ⟨hn, rfl⟩
        · obtain ⟨hparsed, hspan⟩ := hset.get? hg src n.span choice.entry hn.le hn.stop_le
          obtain ⟨hroot, hrootSpan⟩ := graft_fits (ih ((choice, n.span) :: path))
            (g.parse src n.span choice.entry).overflow _ hparsed
          exact ⟨hosting_fits hroot (hrootSpan.trans hspan), rfl⟩

/-- Grafting a whole tree keeps what it covers. -/
theorem graftRoot_fits (hset : set.Faithful) {parsed : Limited Node} (h : parsed.value.Fits src) :
    (graftRoot set src parsed).value.Fits src ∧
      (graftRoot set src parsed).value.span = parsed.value.span :=
  graft_fits (hostNode_fits hset maxDepth []) parsed.overflow parsed.value h

/-! ## Whole texts -/

/-- The sets left of the standard one when the scripts are left out or grammars offer other entry points. -/
inductive GrammarSet.Reduced : GrammarSet → Prop
  /-- The standard set itself. -/
  | standard : Reduced .standard
  /-- A set without the grammar of scripts. -/
  | withoutScripts {set : GrammarSet} (rest : Reduced set) : Reduced (set.unregister "script")
  /-- A set of which one grammar offers the given entry points only. -/
  | restricted {set : GrammarSet} {g : Grammar} (rest : Reduced set) (member : g ∈ set.grammars)
      (entries : List String) : Reduced (set.register (g.restrict entries))

/-- What is left of the standard set is faithful. -/
theorem GrammarSet.Reduced.faithful (h : set.Reduced) : set.Faithful := by
  induction h with
  | standard => exact standard_faithful
  | withoutScripts _ ih => exact ih.unregister "script"
  | restricted _ member entries ih => exact ih.register ((ih _ member).restrict entries)

/-- A text that could be read is covered by its tree, its places counted in characters. -/
theorem parseSource_fits (hset : set.Faithful) {root : Node} (h : parseSource set src = .ok root) :
    root.Fits src ∧ root.span = src.whole := by
  unfold parseSource at h
  split at h
  · exact absurd h (by simp)
  · rename_i markup hmarkup
    obtain ⟨hparsed, hspan⟩ := hset.get? hmarkup src src.whole "document" (Nat.zero_le _)
      (Nat.le_refl src.size)
    obtain ⟨hroot, hrootSpan⟩ := graftRoot_fits hset hparsed
    dsimp only at h
    split at h
    · exact absurd h (by simp)
    · obtain rfl := Except.ok.inj h
      exact ⟨hroot, hrootSpan.trans hspan⟩

/-- **The tree of a text keeps every byte of it.**  It spans the text and spells it out; the children of every
node below it tile the node, every leaf and every fault has the text of its stretch, and the tree that a node
hosts spans just what the node spans. -/
theorem parseWith_lossless {root : Node} (hset : set.Reduced) (h : parseWith set text = .ok root) :
    root.span = ⟨0, text.utf8ByteSize⟩ ∧ root.fullText = text ∧
      ∀ m ∈ root.outline 0, m.2.Lossless text ∧
        (m.2.host?.isSome → ∃ hosted, m.2.children = [hosted] ∧ hosted.span = m.2.span) := by
  let src := Source.ofString text
  obtain ⟨placed, hplaced, rfl⟩ : ∃ placed, parseSource set src = .ok placed ∧
      placed.inBytes src.byteOffsets = root := by
    unfold parseWith at h
    dsimp only at h
    cases hread : parseSource set (Source.ofString text) with
    | error e =>
        rw [hread] at h
        exact absurd h (by simp [Except.map])
    | ok placed =>
        rw [hread] at h
        exact ⟨placed, rfl, Except.ok.inj h⟩
  obtain ⟨hfits, hwhole⟩ := parseSource_fits hset.faithful hplaced
  have hlossless : (placed.inBytes src.byteOffsets).Lossless text := hfits.inBytes
  have hspan : (placed.inBytes src.byteOffsets).span = ⟨0, text.utf8ByteSize⟩ := by
    have hstart := src.byteAt_byteOffsets (Nat.zero_le src.size)
    have hstop := Source.byteAt_size text
    rw [Node.inBytes, Node.span_mapPlaces, Node.start, Node.stop, hwhole]
    exact Span.mk.injEq .. ▸ ⟨hstart, hstop⟩
  refine ⟨hspan, ?_, ?_⟩
  · have hholds := hlossless.holds_fullText (joinable_bytes text)
    rw [hspan] at hholds
    exact hholds.unique (holdsBytes_whole text)
  · intro m hm
    have htiles := (Node.outline_tiles (joinable_bytes text) 0 _ hlossless m hm).1
    exact ⟨htiles, htiles.hosted_root⟩

/-- A script with a reference in it, read with a set that hosts whole scripts only. -/
theorem parseWith_lossless_script :
    ∃ root, parseWith (GrammarSet.standard.register (Grammar.script.restrict ["statements"]))
        "% f(#a)" = .ok root ∧ root.span = ⟨0, "% f(#a)".utf8ByteSize⟩ ∧
      root.fullText = "% f(#a)" ∧ ∀ m ∈ root.outline 0, m.2.Lossless "% f(#a)" ∧
        (m.2.host?.isSome → ∃ hosted, m.2.children = [hosted] ∧ hosted.span = m.2.span) := by
  have hmember : Grammar.script ∈ GrammarSet.standard.grammars :=
    List.mem_append_right _ (List.mem_singleton.mpr rfl)
  have hset := GrammarSet.Reduced.standard.restricted hmember ["statements"]
  have hread : (parseWith (GrammarSet.standard.register (Grammar.script.restrict ["statements"]))
      "% f(#a)").toBool = true := by decide +kernel
  cases h : parseWith (GrammarSet.standard.register (Grammar.script.restrict ["statements"]))
      "% f(#a)" with
  | error e =>
      rw [h] at hread
      exact absurd hread Bool.false_ne_true
  | ok root => exact ⟨root, rfl, parseWith_lossless hset h⟩

/-! ## Stretches of a text -/

/-- What a faithful grammar reads between two places of a text, each told by its bytes. -/
theorem parseStretch_places {g : Grammar} (hg : g.Faithful) (stretch : Span) (entry : String) {a b : Nat}
    (hstart : placeAt? (Source.ofString text).byteOffsets stretch.start = some a)
    (hstop : placeAt? (Source.ofString text).byteOffsets stretch.stop = some b)
    (hle : a ≤ b) (hsize : b ≤ (Source.ofString text).size) :
    ∃ parsed, parseStretch? g text stretch entry = some parsed ∧ parsed.value.Lossless text ∧
      parsed.value.span = stretch := by
  let src := Source.ofString text
  obtain ⟨hfits, hspan⟩ := hg src ⟨a, b⟩ entry hle hsize
  have hread : parseStretch? g text stretch entry =
      some ⟨(g.parse src ⟨a, b⟩ entry).value.inBytes src.byteOffsets,
        (g.parse src ⟨a, b⟩ entry).overflow.map (byteAt src.byteOffsets)⟩ := by
    unfold parseStretch?
    dsimp only
    rw [hstart, hstop]
    rfl
  refine ⟨_, hread, hfits.inBytes, ?_⟩
  rw [Node.inBytes, Node.span_mapPlaces, Node.start, Node.stop, hspan]
  exact Span.mk.injEq .. ▸ ⟨byteAt_of_placeAt? hstart, byteAt_of_placeAt? hstop⟩

/-- **A stretch of a text is covered by the tree that a faithful grammar reads there**, whatever stands before
and after it and whatever it is read from.  No node reaches outside the stretch. -/
theorem parseStretch_lossless {g : Grammar} (hg : g.Faithful) (before part after entry : String) :
    ∃ parsed, parseStretch? g (before ++ part ++ after)
        ⟨before.utf8ByteSize, before.utf8ByteSize + part.utf8ByteSize⟩ entry = some parsed ∧
      parsed.value.span = ⟨before.utf8ByteSize, before.utf8ByteSize + part.utf8ByteSize⟩ ∧
      parsed.value.fullText = part ∧
      ∀ m ∈ parsed.value.outline 0, m.2.Lossless (before ++ part ++ after) ∧
        before.utf8ByteSize ≤ m.2.start ∧ m.2.stop ≤ before.utf8ByteSize + part.utf8ByteSize := by
  have hstart : placeAt? (Source.ofString (before ++ part ++ after)).byteOffsets
      before.utf8ByteSize = some before.length := by
    rw [String.append_assoc]
    exact placeAt_prefix before (part ++ after)
  have hstop : placeAt? (Source.ofString (before ++ part ++ after)).byteOffsets
      (before.utf8ByteSize + part.utf8ByteSize) = some (before ++ part).length := by
    rw [← String.utf8ByteSize_append]
    exact placeAt_prefix (before ++ part) after
  have hle : before.length ≤ (before ++ part).length := by
    rw [String.length_append]
    exact Nat.le_add_right _ _
  have hsize : (before ++ part).length ≤ (Source.ofString (before ++ part ++ after)).size := by
    rw [Source.size_ofString, String.length_append (before ++ part)]
    exact Nat.le_add_right _ _
  obtain ⟨parsed, hparsed, hlossless, hspan⟩ := parseStretch_places hg
    ⟨before.utf8ByteSize, before.utf8ByteSize + part.utf8ByteSize⟩ entry hstart hstop hle hsize
  refine ⟨parsed, hparsed, hspan, ?_, ?_⟩
  · have hholds := hlossless.holds_fullText (joinable_bytes _)
    rw [hspan] at hholds
    exact hholds.unique ⟨before, after, rfl, rfl⟩
  · intro m hm
    have hfrom : parsed.value.start = before.utf8ByteSize := congrArg Span.start hspan
    have hto : parsed.value.stop = before.utf8ByteSize + part.utf8ByteSize := congrArg Span.stop hspan
    have hbelow := Node.outline_tiles (joinable_bytes _) 0 _ hlossless m hm
    rwa [hfrom, hto] at hbelow

/-- **The tree of a script covers its stretch of the text**, whatever the script, the text around it and the
entry point, known or not: it spans the stretch and spells it out, and every node below it tiles its own part.
-/
theorem scriptStretch_lossless (before part after entry : String) :
    ∃ parsed, parseStretch? .script (before ++ part ++ after)
        ⟨before.utf8ByteSize, before.utf8ByteSize + part.utf8ByteSize⟩ entry = some parsed ∧
      parsed.value.span = ⟨before.utf8ByteSize, before.utf8ByteSize + part.utf8ByteSize⟩ ∧
      parsed.value.fullText = part ∧
      ∀ m ∈ parsed.value.outline 0, m.2.Lossless (before ++ part ++ after) ∧
        before.utf8ByteSize ≤ m.2.start ∧ m.2.stop ≤ before.utf8ByteSize + part.utf8ByteSize :=
  parseStretch_lossless script_faithful before part after entry

/-- **The tree of document text covers its stretch**, also where the rules scan the text behind the stretch for
the end of a body, and also when nesting got too deep: it spans the stretch, no node reaches outside it, and
every node below it tiles its own part. -/
theorem markupStretch_lossless (before part after entry : String) :
    ∃ parsed, parseStretch? .markup (before ++ part ++ after)
        ⟨before.utf8ByteSize, before.utf8ByteSize + part.utf8ByteSize⟩ entry = some parsed ∧
      parsed.value.span = ⟨before.utf8ByteSize, before.utf8ByteSize + part.utf8ByteSize⟩ ∧
      parsed.value.fullText = part ∧
      ∀ m ∈ parsed.value.outline 0, m.2.Lossless (before ++ part ++ after) ∧
        before.utf8ByteSize ≤ m.2.start ∧ m.2.stop ≤ before.utf8ByteSize + part.utf8ByteSize :=
  parseStretch_lossless markup_faithful before part after entry

end ComponentMarkup.Document
