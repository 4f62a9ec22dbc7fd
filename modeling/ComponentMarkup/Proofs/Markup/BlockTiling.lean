import ComponentMarkup.Proofs.Markup.InlineTiling
import ComponentMarkup.Proofs.Markup.TableTiling

/-!
# Blocks tile the text

A block rule gets a line and the lines after it and returns a node and the lines it leaves.  The node starts
no earlier than the line, and the lines it leaves are behind its end, also where its body was found by a scan
over the text behind the line.  So the nodes of all blocks are in order, and with the gaps between them filled
they cover everything.

* `BlockRead` — what a rule has to return;
* `readBlock_read` — every rule does;
* `blockNodes_spread` — the nodes of a list of lines lie between the places that the lines lie between;
* `readDocument_fits`, `readInlineContent_fits` — the roots cover their stretch.
-/

namespace ComponentMarkup.Markup

open ComponentMarkup.Text ComponentMarkup.Tree

variable {src : Source} {line : Span} {later : List Span} {lo hi : Nat}

/-- What a rule returns for a line: a node that starts no earlier than the line, and lines behind it. -/
structure BlockRead (src : Source) (line : Span) (hi : Nat) (result : Node × List Span) : Prop where
  fits : result.1.Fits src
  start_le : line.start ≤ result.1.start
  rest : Lines result.1.stop hi result.2

namespace BlockRead

/-- A node that covers a stretch behind the start of the line. -/
theorem ofRun {a b : Nat} {node : Node} {rest : List Span} (hrun : Run src.Holds a b [node])
    (hstart : line.start ≤ a) (hrest : Lines b hi rest) : BlockRead src line hi (node, rest) := by
  obtain ⟨hfrom, hfits, hto⟩ := hrun.of_cons
  have hstop : node.stop = b := hto.chain
  refine ⟨hfits, ?_, ?_⟩
  · show line.start ≤ node.start
    rw [hfrom]
    exact hstart
  · show Lines node.stop hi rest
    rw [hstop]
    exact hrest

/-- A branch up to the end of its last node. -/
theorem enclosing {kind : MarkupKind} {start mid : Nat} {nodes : List Node} {rest : List Span}
    (hnodes : Spread src start mid nodes) (hne : nodes ≠ []) (hstart : line.start ≤ start)
    (hrest : Lines mid hi rest) (hhi : hi ≤ src.size) :
    BlockRead src line hi (enclosing src kind start nodes, rest) := by
  obtain ⟨hrun, hend⟩ := enclosing_run kind hnodes (Nat.le_trans hrest.le hhi) hne
  exact ofRun hrun hstart (hrest.mono hend (Nat.le_refl hi))

/-- A branch up to a place of its own. -/
theorem filled {kind : MarkupKind} {start mid : Nat} {nodes : List Node} {rest : List Span}
    (hnodes : Spread src start mid nodes) (hsome : start < mid ∨ nodes ≠ [])
    (hstart : line.start ≤ start) (hrest : Lines mid hi rest) (hhi : hi ≤ src.size) :
    BlockRead src line hi (filled src kind start mid nodes, rest) :=
  ofRun (filled_run kind hnodes (Nat.le_trans hrest.le hhi) hsome) hstart hrest

end BlockRead

/-! ## Lines that belong together -/

/-- The content of each of several lines lies within the line and the text. -/
theorem content_bounds {lines : List Span} (h : Lines lo hi lines) (hhi : hi ≤ src.size) {l : Span}
    (hl : l ∈ lines) : l.start ≤ contentStart src l ∧ contentStart src l ≤ l.stop ∧
      l.stop ≤ src.size := by
  obtain ⟨_, hle, hto⟩ := h.mem hl
  have hstop := Nat.le_trans hto hhi
  obtain ⟨hstart, hend⟩ := contentStart_bounds hle hstop
  exact ⟨hstart, hend, hstop⟩

/-- A leaf on each of several lines. -/
theorem leaves_spread (kind : MarkupKind) {lines : List Span} {first last : Span → Nat}
    (h : Lines lo hi lines) (hhi : hi ≤ src.size)
    (hleaf : ∀ l ∈ lines, l.start ≤ first l ∧ first l ≤ last l ∧ last l ≤ l.stop) :
    Spread src lo hi (lines.map fun l => leafOf src kind (first l) (last l)) := by
  induction lines generalizing lo with
  | nil => exact h
  | cons line lines ih =>
      obtain ⟨hstart, hle, hstop⟩ := hleaf line List.mem_cons_self
      have hrest := ih h.2.2 fun l hl => hleaf l (List.mem_cons_of_mem _ hl)
      have hend := h.2.2.le
      refine ⟨Nat.le_trans h.1 hstart, leafOf_fits hle (by omega), ?_⟩
      exact hrest.mono hstop (Nat.le_refl hi)

/-- A leaf over all lines of a body. -/
theorem bodyLeaf_spread (kind : MarkupKind) {body : List Span} (h : Lines lo hi body)
    (hhi : hi ≤ src.size) : Spread src lo hi (bodyLeaf src kind body) := by
  cases body with
  | nil => exact h
  | cons first later =>
      have hregion := Region.of_lines h
      have hlast := h.2.2.lastStop_bounds.2
      have hget : (first :: later).getLast? = some ((first :: later).getLast (List.cons_ne_nil _ _)) :=
        List.getLast?_eq_some_getLast (List.cons_ne_nil _ _)
      have hstop : ((first :: later).getLast (List.cons_ne_nil _ _)).stop =
          lastStop first.stop later := by
        rw [← lastStop_cons lo, lastStop, hget]
        rfl
      unfold bodyLeaf
      rw [List.head?_cons, hget]
      dsimp only
      rw [hstop]
      exact Spread.leaf h.1 hregion.le hlast (Nat.le_trans hlast hhi)

/-- What a fenced body leaves are the lines from the one that closes it on. -/
theorem splitFence_eq (closes : Span → Bool) (lines : List Span) :
    splitFence closes lines = (lines.takeWhile fun l => !closes l,
      (lines.dropWhile fun l => !closes l).head?, (lines.dropWhile fun l => !closes l).tail) := by
  unfold splitFence
  dsimp only
  rw [dropWhile_eq_drop]

/-- A fenced body, the line that closes it and the lines after it follow each other. -/
theorem splitFence_lines {closes : Span → Bool} {lines body rest : List Span} {close : Option Span}
    (h : Lines lo hi lines) (hfence : splitFence closes lines = (body, close, rest)) :
    ∃ last, Lines lo (lastStop lo body) body ∧ Lines (lastStop lo body) last close.toList ∧
      Lines last hi rest ∧ ∀ l ∈ close.toList, closes l = true := by
  rw [splitFence_eq] at hfence
  obtain ⟨rfl, hmore⟩ := Prod.mk.inj hfence
  obtain ⟨rfl, rfl⟩ := Prod.mk.inj hmore
  obtain ⟨hbody, hleft⟩ := h.takeWhile fun l => !closes l
  have hclosing := List.head?_dropWhile_not (fun l => !closes l) lines
  cases hdrop : lines.dropWhile fun l => !closes l with
  | nil =>
      rw [hdrop] at hleft
      exact ⟨_, hbody, Nat.le_refl _, hleft, fun l hl => absurd hl List.not_mem_nil⟩
  | cons next later =>
      rw [hdrop] at hleft hclosing
      refine ⟨next.stop, hbody, ⟨hleft.1, hleft.2.1, Nat.le_refl _⟩, hleft.2.2, fun l hl => ?_⟩
      obtain rfl := List.mem_singleton.mp hl
      simpa using hclosing

/-- Deeper lines and the lines after them make up all lines. -/
theorem takeDeeper_spec {isDeep : Span → Bool} {lines taken rest : List Span}
    (h : takeDeeper src isDeep lines = (taken, rest)) :
    lines = taken ++ rest ∧ ∀ l ∈ taken, isBlankLine src l = false → isDeep l = true := by
  induction lines generalizing taken rest with
  | nil =>
      obtain ⟨rfl, rfl⟩ := Prod.mk.inj h
      exact ⟨rfl, fun l hl => absurd hl List.not_mem_nil⟩
  | cons line lines ih =>
      unfold takeDeeper at h
      split at h
      · rename_i hblank
        split at h
        · obtain ⟨rfl, rfl⟩ := Prod.mk.inj h
          exact ⟨rfl, fun l hl => absurd hl List.not_mem_nil⟩
        · rename_i deeper after hne hdeeper
          obtain ⟨rfl, rfl⟩ := Prod.mk.inj h
          obtain ⟨rfl, hall⟩ := ih hdeeper
          refine ⟨rfl, fun l hl hsome => ?_⟩
          rcases List.mem_cons.mp hl with rfl | hl
          · rw [hblank] at hsome
            exact absurd hsome (by decide)
          · exact hall l hl hsome
      · split at h
        · rename_i hdeep
          obtain ⟨rfl, rfl⟩ := Prod.mk.inj h
          obtain ⟨hsplit, hall⟩ := ih rfl
          refine ⟨?_, fun l hl hsome => ?_⟩
          · rw [List.cons_append, ← hsplit]
          · rcases List.mem_cons.mp hl with rfl | hl
            · exact hdeep
            · exact hall l hl hsome
        · obtain ⟨rfl, rfl⟩ := Prod.mk.inj h
          exact ⟨rfl, fun l hl => absurd hl List.not_mem_nil⟩

/-- Quoted lines without their markers are in order. -/
theorem unquoted_lines {lines : List Span} (h : Lines line.stop hi lines) (hhi : hi ≤ src.size)
    (hfirst : (unindented src line).head? = some '>')
    (hlines : ∀ l ∈ lines, (unindented src l).head? = some '>') :
    Lines (contentStart src line) hi ((line :: lines).map (unquote src)) := by
  obtain ⟨hstart, hle, hstop⟩ := unquote_bounds hfirst
  refine ⟨Nat.le_of_lt hstart, hle, ?_⟩
  rw [hstop]
  refine h.map fun l hl => ?_
  have hunquoted := unquote_bounds (hlines l hl)
  have hbounds := content_bounds h hhi hl
  exact ⟨by omega, hunquoted.2.1, Nat.le_of_eq hunquoted.2.2⟩

/-- The contents of several lines are a region. -/
theorem content_region {lines : List Span} (h : Lines line.stop hi lines) (hhi : hi ≤ src.size)
    (hend : contentStart src line ≤ line.stop) : Region (contentStart src line) (lastStop line.stop lines)
      ((line :: lines).map fun l => ⟨contentStart src l, l.stop⟩) := by
  refine ⟨_, _, rfl, rfl, hend, ?_, lastStop_map line.stop fun l _ => rfl⟩
  refine h.narrow.map fun l hl => ?_
  have hbounds := content_bounds h hhi hl
  exact ⟨hbounds.1, hbounds.2.1, Nat.le_refl l.stop⟩

/-- The lines of a list item are in order, and the lines after them behind them. -/
theorem itemLines_lines (column : Nat) (goesOn : Bool) {lines : List Span} (h : Lines lo hi lines)
    (hhi : hi ≤ src.size) :
    Lines lo (lastStop lo (itemLines src column goesOn lines).1) (itemLines src column goesOn lines).1 ∧
      Lines (lastStop lo (itemLines src column goesOn lines).1) hi
        (itemLines src column goesOn lines).2 := by
  induction lines generalizing lo goesOn with
  | nil => exact ⟨Nat.le_refl lo, h⟩
  | cons line lines ih =>
      obtain ⟨hstart, hend, hstop⟩ := content_bounds h hhi List.mem_cons_self
      -- a line of the item keeps its end, whatever is taken off at its start
      have hcons : ∀ (goesOn : Bool) (piece : Span), line.start ≤ piece.start →
          piece.start ≤ piece.stop → piece.stop = line.stop →
          Lines lo (lastStop lo (piece :: (itemLines src column goesOn lines).1))
              (piece :: (itemLines src column goesOn lines).1) ∧
            Lines (lastStop lo (piece :: (itemLines src column goesOn lines).1)) hi
              (itemLines src column goesOn lines).2 := by
        intro goesOn piece hfrom hle hto
        obtain ⟨htaken, hrest⟩ := ih goesOn h.2.2
        rw [lastStop_cons, hto]
        exact ⟨⟨Nat.le_trans h.1 hfrom, hle, by rwa [hto]⟩, hrest⟩
      have hstrip := strip_bounds column h.2.1 hstop
      unfold itemLines
      split
      · split
        · exact ⟨Nat.le_refl lo, h⟩
        · rename_i taken rest _ hitem
          have hblank := hcons false (strip src column line) hstrip.1 hstrip.2.1 rfl
          rw [hitem] at hblank
          exact hblank
      · split
        · exact hcons true (strip src column line) hstrip.1 hstrip.2.1 rfl
        · split
          · exact hcons true ⟨contentStart src line, line.stop⟩ hstart hend rfl
          · exact ⟨Nat.le_refl lo, h⟩

/-! ## Rules -/

section Rules

variable {env : BlockEnv} {result : Limited (Node × List Span)} (he : env.Sound)
  (hlines : Lines lo hi (line :: later)) (hhi : hi ≤ env.source.size)

include hlines hhi

omit he in
theorem commentBlock_read (h : commentBlock env line later = some result) :
    BlockRead env.source line hi result.value := by
  obtain ⟨hstart, hend, hstop⟩ := content_bounds hlines hhi List.mem_cons_self
  unfold commentBlock at h
  dsimp only at h
  split at h
  · rename_i hcomment
    obtain rfl := Option.some.inj h
    simp only [List.takeWhile_cons, List.dropWhile_cons, hcomment, if_true]
    obtain ⟨hbody, hrest⟩ := hlines.2.2.takeWhile fun l => startsComment (unindented env.source l)
    have hleaves := leaves_spread .lineComment hbody (Nat.le_trans hrest.le hhi) fun l hl =>
      have hbounds := content_bounds hbody (Nat.le_trans hrest.le hhi) hl
      ⟨hbounds.1, hbounds.2.1, Nat.le_refl l.stop⟩
    exact BlockRead.enclosing ⟨Nat.le_refl _, leafOf_fits hend hstop, hleaves⟩
      (List.cons_ne_nil _ _) hstart hrest hhi
  · exact absurd h (by simp)

omit he in
theorem scriptBlock_read (h : scriptBlock env line later = some result) :
    BlockRead env.source line hi result.value := by
  obtain ⟨hstart, hend, hstop⟩ := content_bounds hlines hhi List.mem_cons_self
  unfold scriptBlock at h
  dsimp only at h
  split at h
  · exact absurd h (by simp)
  rename_i hpercent
  simp only [bne_iff_ne, ne_eq, Decidable.not_not] at hpercent
  rw [unindented_eq] at hpercent
  have hlt := env.source.lt_of_head?_slice hpercent
  split at h
  · rcases hfence : splitFence (fun l => isScriptFence (unindented env.source l)) later with
      ⟨body, close, rest⟩
    rw [hfence] at h
    obtain rfl := Option.some.inj h
    obtain ⟨last, hbody, hclose, hrest, _⟩ := splitFence_lines hlines.2.2 hfence
    have hbound := Nat.le_trans hrest.le hhi
    have hclosing := leaves_spread .scriptFence hclose hbound fun l hl =>
      have hbounds := content_bounds hclose hbound hl
      ⟨hbounds.1, hbounds.2.1, Nat.le_refl l.stop⟩
    have hleaf := bodyLeaf_spread .scriptBody hbody (Nat.le_trans hclose.le hbound)
    exact BlockRead.enclosing ⟨Nat.le_refl _, leafOf_fits hend hstop, hleaf.append hclosing⟩
      (List.cons_ne_nil _ _) hstart hrest hhi
  · obtain rfl := Option.some.inj h
    have hmark : Spread env.source (contentStart env.source line) (contentStart env.source line + 1)
        [leafOf env.source .scriptMark (contentStart env.source line)
          (contentStart env.source line + 1)] :=
      Spread.leaf (Nat.le_refl _) (Nat.le_succ _) (Nat.le_refl _) (by omega)
    have hbody : Spread env.source (contentStart env.source line + 1) line.stop
        (if contentStart env.source line + 1 < line.stop then
          [leafOf env.source .scriptBody (contentStart env.source line + 1) line.stop] else []) :=
      Spread.leafIf hlt fun _ => ⟨Nat.le_refl _, hlt, Nat.le_refl _, hstop⟩
    exact BlockRead.enclosing (hmark.append hbody) (List.cons_ne_nil _ _) hstart hlines.2.2 hhi

omit he in
/-- Attributes are covered, with their values on the same line or on deeper ones. -/
theorem attributeBlock_read (h : attributeBlock env line later = some result) :
    BlockRead env.source line hi result.value := by
  obtain ⟨hstart, hend, hstop⟩ := content_bounds hlines hhi List.mem_cons_self
  obtain ⟨width, hkey, h⟩ := Option.bind_eq_some_iff.mp h
  have hwidth := attributeKey?_bound hkey
  rw [length_unindented hstop] at hwidth
  dsimp only at h
  generalize contentStart env.source line = start at hstart hend hwidth h
  have hhead : Spread env.source start (start + 2 + width + 1)
      [leafOf env.source .attributeMark start (start + 1),
        leafOf env.source .attributeKey (start + 2) (start + 2 + width),
        leafOf env.source .colon (start + 2 + width) (start + 2 + width + 1)] :=
    ⟨Nat.le_refl _, leafOf_fits (by omega) (by omega), Nat.le_succ _,
      leafOf_fits (by omega) (by omega), Nat.le_refl _, leafOf_fits (by omega) (by omega),
      Nat.le_refl _⟩
  split at h
  · rcases htaken : takeIndented env.source (indentOf env.source line + bodyIndent) later with
      ⟨taken, rest⟩
    rw [htaken] at h
    obtain rfl := Option.some.inj h
    obtain ⟨rfl, hdeep⟩ := takeDeeper_spec htaken
    obtain ⟨hbody, hrest⟩ := hlines.2.2.split
    have hbound := Nat.le_trans hrest.le hhi
    have hle := hbody.le
    refine BlockRead.enclosing (hhead.append ?_)
      (List.cons_ne_nil _ _) hstart hrest hhi
    split
    · rename_i first last hfirst hlast
      have hmem := List.mem_of_find?_eq_some hfirst
      have hsome := List.find?_some hfirst
      have hcolumns := of_decide_eq_true (hdeep first hmem (by simpa using hsome))
      obtain ⟨_, hcontent, _⟩ := content_bounds hbody hbound hmem
      obtain ⟨hfrom, _, hto⟩ := hbody.mem hmem
      have hend : last.stop = lastStop line.stop taken := by
        rw [lastStop, hlast]
        rfl
      unfold contentStart at hcontent
      rw [hend]
      exact Spread.leaf (by omega) (by omega) (Nat.le_refl _) hbound
    · show start + 2 + width + 1 ≤ lastStop line.stop taken
      omega
  · obtain rfl := Option.some.inj h
    have hwhite := runLength_le isWhitespace (env.source.slice (start + 2 + width + 1) line.stop)
    rw [env.source.length_slice hstop] at hwhite
    have hvalue : Spread env.source (start + 2 + width + 1) line.stop
        [leafOf env.source .attributeValue (start + 2 + width + 1 +
          runLength isWhitespace (env.source.slice (start + 2 + width + 1) line.stop)) line.stop] :=
      Spread.leaf (Nat.le_add_right _ _) (by omega) (Nat.le_refl _) hstop
    exact BlockRead.enclosing (hhead.append hvalue) (List.cons_ne_nil _ _) hstart hlines.2.2 hhi

omit hlines hhi he in
/-- The lines after the one on which a place lies are behind the place. -/
theorem linesAfter?_lines {place : Nat} {lines rest : List Span} (h : linesAfter? place lines = some rest)
    (hall : Lines lo hi lines) : Lines place hi rest := by
  induction lines generalizing lo with
  | nil => exact absurd h (by simp [linesAfter?])
  | cons line lines ih =>
      unfold linesAfter? at h
      split at h
      · rename_i hin
        obtain rfl := Option.some.inj h
        rw [Bool.and_eq_true, decide_eq_true_eq, decide_eq_true_eq] at hin
        exact hall.2.2.mono hin.2 (Nat.le_refl hi)
      · exact ih h hall.2.2

include he in
/-- The body of a component is behind its first line, and the lines that are left are behind the body. -/
theorem componentBody_spread : ∃ mid,
    Spread env.source line.stop mid (componentBody env line later).value.1 ∧
      Lines mid hi (componentBody env line later).value.2 := by
  unfold componentBody
  dsimp only
  rcases htaken : takeIndented env.source (indentOf env.source line + bodyIndent) later with
    ⟨taken, rest⟩
  dsimp only
  split
  · exact ⟨line.stop, Nat.le_refl _, hlines.2.2⟩
  · rename_i last hlast
    obtain ⟨rfl, _⟩ := takeDeeper_spec htaken
    obtain ⟨hbody, hrest⟩ := hlines.2.2.split
    have hbound := Nat.le_trans hrest.le hhi
    have hend : last.stop = lastStop line.stop taken := by
      rw [lastStop, hlast]
      rfl
    have hstripped := hbody.map fun l hl =>
      strip_bounds (indentOf env.source line + bodyIndent) (hbody.mem hl).2.1
        (Nat.le_trans (hbody.mem hl).2.2 hbound)
    have hnodes := he.nested hstripped hbound
    rw [value_bind]
    generalize (env.nested (taken.map (strip env.source (indentOf env.source line +
      bodyIndent)))).value = nodes at hnodes ⊢
    refine ⟨lastStop line.stop taken, ?_⟩
    cases nodes with
    | nil => exact ⟨hnodes, hrest⟩
    | cons first nodes =>
        have hinner : Spread env.source first.start (lastStop line.stop taken) (first :: nodes) :=
          ⟨Nat.le_refl _, hnodes.2⟩
        have hfilled := filled_run .blockBody hinner hbound (.inr (List.cons_ne_nil _ _))
        rw [← hend] at hfilled hrest ⊢
        exact ⟨(Spread.ofRun hfilled).mono hnodes.1 (Nat.le_refl _), hrest⟩

omit hlines hhi in
include he in
/-- The content of a component on a line lies on the line. -/
theorem componentLine_spread {start stop : Nat} (hle : start ≤ stop) (hstop : stop ≤ env.source.size) :
    Spread env.source start stop (componentLine env start stop).value := by
  obtain ⟨hfrom, hto⟩ := trimmed_bounds env.source hle hstop
  unfold componentLine
  dsimp only
  generalize trimmed env.source start stop = content at hfrom hto
  split
  · rename_i hlt
    have hrun := he.inline .full (Region.single (Nat.le_of_lt hlt)) (Nat.le_trans hto hstop)
    exact (Spread.ofRun (markup_run .lineContent hrun (hrun.ne_nil hlt))).mono hfrom hto
  · exact hle

include he in
/-- Components are covered, wherever their bodies end. -/
theorem componentBlock_read (h : componentBlock env line later = some result) :
    BlockRead env.source line hi result.value := by
  obtain ⟨hstart, hend, hstop⟩ := content_bounds hlines hhi List.mem_cons_self
  unfold componentBlock at h
  dsimp only at h
  split at h
  · exact absurd h (by simp)
  obtain ⟨⟨head, form⟩, hheader, h⟩ := Option.bind_eq_some_iff.mp h
  obtain ⟨hlt, hlimit, hhead, hwithin⟩ := componentHeader?_spec hheader hstop
  generalize contentStart env.source line = start at hstart hend hlt hhead h
  have hne : ∀ nodes, head.nodes env.source ++ nodes ≠ [] := fun nodes =>
    List.append_ne_nil_of_left_ne_nil (hhead.ne_nil (by omega)) nodes
  dsimp only at h
  split at h
  · rename_i close
    obtain ⟨rest, hafter, h⟩ := Option.bind_eq_some_iff.mp h
    obtain rfl := Option.some.inj h
    obtain ⟨hfrom, hto⟩ := hwithin
    have hnodes := hhead.append (verbatimNode_run hfrom hto)
    exact BlockRead.enclosing (Spread.ofRun hnodes) (hne _) hstart (linesAfter?_lines hafter hlines) hhi
  · rename_i close
    obtain ⟨rest, hafter, h⟩ := Option.bind_eq_some_iff.mp h
    obtain rfl := Option.some.inj h
    obtain ⟨hfrom, hto⟩ := hwithin
    have hopen : Run env.source.Holds head.stop (head.stop + 1)
        [leafOf env.source .leftBrace head.stop (head.stop + 1)] := leafOf_run (by omega) (by omega)
    have hhole : Run env.source.Holds (head.stop + 1) close
        (if head.stop + 1 < close then [leafOf env.source .markupHole (head.stop + 1) close] else []) :=
      optionalLeaf_run hfrom (by omega)
    have hclose : Run env.source.Holds close (close + 1)
        [leafOf env.source .rightBrace close (close + 1)] := leafOf_run (by omega) hto
    have hnodes := hhead.append ((hopen.append hhole).append hclose)
    exact BlockRead.enclosing (Spread.ofRun hnodes) (hne _) hstart (linesAfter?_lines hafter hlines) hhi
  · rename_i colon
    obtain rfl := Option.some.inj h
    obtain ⟨rfl, hcolon⟩ := hwithin
    obtain ⟨mid, hbody, hrest⟩ := componentBody_spread he hlines hhi
    have hmark : Run env.source.Holds head.stop (head.stop + 1)
        [leafOf env.source .colon head.stop (head.stop + 1)] := leafOf_run (by omega) (by omega)
    have hcontent := componentLine_spread he hcolon hstop
    have hnodes := (Spread.ofRun hhead).append (((Spread.ofRun hmark).append hcontent).append hbody)
    exact BlockRead.enclosing hnodes (hne _) hstart hrest hhi
  · obtain rfl := Option.some.inj h
    have hnodes := (Spread.ofRun hhead).mono (Nat.le_refl _) hlimit
    have hall := hne []
    exact BlockRead.enclosing (by rwa [List.append_nil]) (hne []) hstart hlines.2.2 hhi

include he in
theorem mathBlock_read (h : mathBlock env line later = some result) :
    BlockRead env.source line hi result.value := by
  obtain ⟨hstart, hend, hstop⟩ := content_bounds hlines hhi List.mem_cons_self
  unfold mathBlock at h
  dsimp only at h
  split at h
  · exact absurd h (by simp)
  rename_i hfence
  rw [Bool.not_eq_true', Bool.not_eq_false] at hfence
  have hwidth : ∀ l : Span, l.stop ≤ env.source.size →
      isMathFence (unindented env.source l) = true → contentStart env.source l + 2 ≤ l.stop := by
    intro l hl hmath
    have hlen := isMathFence_bound hmath
    rw [length_unindented hl] at hlen
    omega
  have hopen := hwidth line hstop hfence
  rcases hsplit : splitFence (fun l => isMathFence (unindented env.source l)) later with
    ⟨body, close, rest⟩
  rw [hsplit] at h
  obtain rfl := Option.some.inj h
  obtain ⟨last, hbody, hclose, hrest, hcloses⟩ := splitFence_lines hlines.2.2 hsplit
  have hbound := Nat.le_trans hrest.le hhi
  have hclosing := leaves_spread .mathDelim hclose hbound fun l hl =>
    have hbounds := content_bounds hclose hbound hl
    ⟨hbounds.1, Nat.le_add_right (contentStart env.source l) 2, hwidth l hbounds.2.2 (hcloses l hl)⟩
  have hfirst : Spread env.source (contentStart env.source line) line.stop
      [leafOf env.source .mathDelim (contentStart env.source line)
        (contentStart env.source line + 2)] :=
    Spread.leaf (Nat.le_refl _) (Nat.le_add_right _ _) hopen (by omega)
  have hread : ∀ nodes : List Node, Spread env.source line.stop (lastStop line.stop body)
      (if nodes.isEmpty then [] else [Node.markup .mathContent nodes]) →
      BlockRead env.source line hi (enclosing env.source .mathBlock (contentStart env.source line)
        (leafOf env.source .mathDelim (contentStart env.source line)
          (contentStart env.source line + 2) ::
            (if nodes.isEmpty then [] else [Node.markup .mathContent nodes]) ++
          close.toList.map fun l => leafOf env.source .mathDelim (contentStart env.source l)
            (contentStart env.source l + 2)), rest) := fun nodes hcontent =>
    BlockRead.enclosing ((hfirst.append hcontent).append hclosing) (List.cons_ne_nil _ _) hstart
      hrest hhi
  dsimp only
  split
  · exact hread [] hbody.le
  · rename_i hsome
    refine hread (env.inline body .template).value ?_
    cases body with
    | nil => exact absurd rfl hsome
    | cons first between =>
        have hlast := hbody.2.2.lastStop_bounds.2
        have hrun := he.inline .template (Region.of_lines hbody)
          (Nat.le_trans hlast (Nat.le_trans hclose.le hbound))
        split
        · exact hbody.le
        · rename_i hnodes
          have hne : (env.inline (first :: between) .template).value ≠ [] := by simpa using hnodes
          exact (Spread.ofRun (markup_run .mathContent hrun hne)).mono hbody.1 hlast

omit he in
theorem codeBlock_read (h : codeBlock env line later = some result) :
    BlockRead env.source line hi result.value := by
  obtain ⟨hstart, hend, hstop⟩ := content_bounds hlines hhi List.mem_cons_self
  obtain ⟨⟨mark, width⟩, hcode, h⟩ := Option.bind_eq_some_iff.mp h
  have hwidth := codeFence?_bound hcode
  rw [length_unindented hstop] at hwidth
  dsimp only at h
  rcases hsplit : splitFence (fun l => closesFence mark width (unindented env.source l)) later with
    ⟨body, close, rest⟩
  rw [hsplit] at h
  obtain rfl := Option.some.inj h
  obtain ⟨last, hbody, hclose, hrest, _⟩ := splitFence_lines hlines.2.2 hsplit
  have hbound := Nat.le_trans hrest.le hhi
  have hbehind : contentStart env.source line + width ≤ line.stop := by omega
  obtain ⟨hinfoStart, hinfoStop⟩ := trimmed_bounds env.source hbehind hstop
  have hfence : Spread env.source (contentStart env.source line)
      (contentStart env.source line + width)
      [leafOf env.source .codeFence (contentStart env.source line)
        (contentStart env.source line + width)] :=
    Spread.leaf (Nat.le_refl _) (Nat.le_add_right _ _) (Nat.le_refl _) (by omega)
  have hinfo : Spread env.source (contentStart env.source line + width) line.stop
      (if (trimmed env.source (contentStart env.source line + width) line.stop).start <
          (trimmed env.source (contentStart env.source line + width) line.stop).stop then
        [leafOf env.source .codeInfo
          (trimmed env.source (contentStart env.source line + width) line.stop).start
          (trimmed env.source (contentStart env.source line + width) line.stop).stop] else []) :=
    Spread.leafIf hbehind fun hlt =>
      ⟨hinfoStart, Nat.le_of_lt hlt, hinfoStop, Nat.le_trans hinfoStop hstop⟩
  have hleaf := bodyLeaf_spread .codeText hbody (Nat.le_trans hclose.le hbound)
  have hclosing := leaves_spread .codeFence hclose hbound fun l hl =>
    have hbounds := content_bounds hclose hbound hl
    have hrow := rowStop_bounds (hclose.mem hl).2.1 hbounds.2.2
    ⟨hbounds.1, hrow.1, hrow.2⟩
  exact BlockRead.enclosing (((hfence.append hinfo).append hleaf).append hclosing)
    (List.cons_ne_nil _ _) hstart hrest hhi

include he in
theorem headingBlock_read (h : headingBlock env line later = some result) :
    BlockRead env.source line hi result.value := by
  obtain ⟨hstart, hend, hstop⟩ := content_bounds hlines hhi List.mem_cons_self
  obtain ⟨level, hlevel, h⟩ := Option.bind_eq_some_iff.mp h
  have hwidth := headingLevel?_bound hlevel
  rw [length_unindented hstop] at hwidth
  obtain rfl := Option.some.inj h
  have hbehind : contentStart env.source line + level ≤ line.stop := by omega
  obtain ⟨hfrom, hto⟩ := trimmed_bounds env.source hbehind hstop
  have hmarker : Spread env.source (contentStart env.source line)
      (contentStart env.source line + level)
      [leafOf env.source .headingMarker (contentStart env.source line)
        (contentStart env.source line + level)] :=
    Spread.leaf (Nat.le_refl _) (Nat.le_add_right _ _) (Nat.le_refl _) (by omega)
  have hread : ∀ nodes : List Node, Spread env.source (contentStart env.source line + level)
      line.stop nodes → BlockRead env.source line hi (filled env.source .heading
        (contentStart env.source line) line.stop (leafOf env.source .headingMarker
          (contentStart env.source line) (contentStart env.source line + level) :: nodes), later) :=
    fun nodes hnodes => BlockRead.filled (hmarker.append hnodes) (.inr (List.cons_ne_nil _ _)) hstart
      hlines.2.2 hhi
  dsimp only
  split
  · rename_i hlt
    have hrun := he.inline .full (Region.single (Nat.le_of_lt hlt)) (Nat.le_trans hto hstop)
    exact hread _ ((Spread.ofRun hrun).mono hfrom hto)
  · exact hread [] hbehind

include he in
theorem quoteBlock_read (h : quoteBlock env line later = some result) :
    BlockRead env.source line hi result.value := by
  obtain ⟨hstart, hend, hstop⟩ := content_bounds hlines hhi List.mem_cons_self
  unfold quoteBlock at h
  dsimp only at h
  split at h
  · exact absurd h (by simp)
  rename_i hquoted
  rw [Bool.not_eq_true', Bool.not_eq_false] at hquoted
  obtain rfl := Option.some.inj h
  simp only [List.takeWhile_cons, List.dropWhile_cons, hquoted, if_true]
  obtain ⟨hbody, hrest⟩ := hlines.2.2.takeWhile fun l => (unindented env.source l).head? == some '>'
  have hmarked : ∀ l ∈ later.takeWhile fun l => (unindented env.source l).head? == some '>',
      (unindented env.source l).head? = some '>' := fun l hl =>
    eq_of_beq (List.mem_takeWhile_imp (p := fun l => (unindented env.source l).head? == some '>') hl)
  generalize later.takeWhile (fun l => (unindented env.source l).head? == some '>') = body
    at hbody hrest hmarked ⊢
  have hbound := Nat.le_trans hrest.le hhi
  have hlast : (((line :: body).getLast?.map Span.stop).getD line.stop) = lastStop line.stop body :=
    lastStop_cons line.stop line body
  rw [hlast]
  have hfirst := unquote_bounds (eq_of_beq hquoted)
  have hinner := unquoted_lines hbody hbound (eq_of_beq hquoted) hmarked
  have hsome : contentStart env.source line < lastStop line.stop body := by
    have hle := hbody.le
    omega
  exact BlockRead.filled (he.nested hinner hbound) (.inl hsome) hstart hrest hhi

include he in
/-- An item of a list is covered, given that what stands in front of its content is. -/
theorem listItem_content {start content column : Nat} {front : List Node} (hstart : line.start ≤ start)
    (hfront : Spread env.source start content front) (hcontent : content ≤ line.stop)
    (hne : front ≠ []) : BlockRead env.source line hi (do
      let blocks ← env.nested (⟨content, line.stop⟩ :: (itemLines env.source column true later).1)
      return (filled env.source .listItem start
        (max (((front ++ blocks).getLast?.map Node.stop).getD line.stop)
          (((⟨content, line.stop⟩ :: (itemLines env.source column true later).1).getLast?.map
            Span.stop).getD line.stop)) (front ++ blocks),
        (itemLines env.source column true later).2) : Limited (Node × List Span)).value := by
  obtain ⟨htaken, hrest⟩ := itemLines_lines column true hlines.2.2 hhi
  have hbound := Nat.le_trans hrest.le hhi
  have hlast : (((⟨content, line.stop⟩ :: (itemLines env.source column true later).1).getLast?.map
      Span.stop).getD line.stop) = lastStop line.stop (itemLines env.source column true later).1 :=
    lastStop_cons line.stop _ _
  have hinner : Lines content (lastStop line.stop (itemLines env.source column true later).1)
      (⟨content, line.stop⟩ :: (itemLines env.source column true later).1) :=
    ⟨Nat.le_refl _, hcontent, htaken⟩
  have hnodes := hfront.append (he.nested hinner hbound)
  rw [value_bind, hlast]
  generalize (env.nested (⟨content, line.stop⟩ :: (itemLines env.source column true later).1)).value =
    blocks at hnodes ⊢
  -- no node ends behind the last line of the item
  have hall : front ++ blocks ≠ [] := List.append_ne_nil_of_left_ne_nil hne blocks
  have hend : ((front ++ blocks).getLast?.map Node.stop).getD line.stop ≤
      lastStop line.stop (itemLines env.source column true later).1 := by
    have hnarrow := hnodes.narrow.2
    rw [lastEnd, List.getLast?_eq_some_getLast hall] at hnarrow
    rw [List.getLast?_eq_some_getLast hall]
    exact hnarrow
  rw [Nat.max_eq_right hend]
  exact BlockRead.filled hnodes (.inr hall) hstart hrest hhi

include he in
/-- Items of lists are covered. -/
theorem listItem_read {marker : ListMarker}
    (hmarker : ListMarker.read? (unindented env.source line) = some marker) :
    BlockRead env.source line hi (listItem env line marker later).value := by
  obtain ⟨hstart, hend, hstop⟩ := content_bounds hlines hhi List.mem_cons_self
  obtain ⟨_, hwidth⟩ := ListMarker.read?_bound hmarker
  rw [length_unindented hstop] at hwidth
  have hafter : contentStart env.source line + marker.width ≤ line.stop := by omega
  have hmark : Spread env.source (contentStart env.source line)
      (contentStart env.source line + marker.width)
      [leafOf env.source .listMarker (contentStart env.source line)
        (contentStart env.source line + marker.width)] :=
    Spread.leaf (Nat.le_refl _) (Nat.le_add_right _ _) (Nat.le_refl _) (by omega)
  -- the marker and the task box, with the content anywhere behind the marker
  have hfront : ∀ content, contentStart env.source line + marker.width ≤ content →
      content ≤ line.stop → Spread env.source (contentStart env.source line)
        (if hasTaskBox (env.source.slice content line.stop) then min (content + 4) line.stop
          else content)
        (leafOf env.source .listMarker (contentStart env.source line)
          (contentStart env.source line + marker.width) ::
            if hasTaskBox (env.source.slice content line.stop) then
              [leafOf env.source .taskMarker content (content + 3)] else []) := by
    intro content hbehind hwithin
    cases hbox : hasTaskBox (env.source.slice content line.stop) with
    | false => exact hmark.mono (Nat.le_refl _) hbehind
    | true =>
        have hthree := hasTaskBox_bound hbox
        rw [env.source.length_slice hstop] at hthree
        have hbehindBox : content + 3 ≤ min (content + 4) line.stop := by omega
        exact hmark.append
          (Spread.leaf hbehind (Nat.le_add_right _ _) hbehindBox (by omega))
  have hwithin : ∀ content ≤ line.stop, (if hasTaskBox (env.source.slice content line.stop) then
      min (content + 4) line.stop else content) ≤ line.stop := by
    intro content hcontent
    split
    · exact Nat.min_le_right _ _
    · exact hcontent
  unfold listItem
  refine listItem_content he hlines hhi hstart ?_ ?_ (List.cons_ne_nil _ _)
  · exact hfront _ (Nat.le_min.mpr ⟨Nat.le_add_right _ _, hafter⟩) (Nat.min_le_right _ _)
  · exact hwithin _ (Nat.min_le_right _ _)

omit hlines in
include he in
/-- The items of a list follow each other, and the lines that are left are behind them. -/
theorem listItems_spread (indent : Nat) (first : ListMarker) (fuel : Nat) {marker : ListMarker}
    (hlines : Lines lo hi (line :: later))
    (hmarker : ListMarker.read? (unindented env.source line) = some marker) : ∃ mid,
      Spread env.source line.start mid (listItems env indent first fuel line marker later).value.1 ∧
        Lines mid hi (listItems env indent first fuel line marker later).value.2 := by
  induction fuel generalizing lo line later marker with
  | zero => exact ⟨line.stop, hlines.2.1, hlines.2.2⟩
  | succ fuel ih =>
      have hread := listItem_read he hlines hhi hmarker
      unfold listItems
      dsimp only
      rw [value_bind]
      generalize (listItem env line marker later).value = result at hread
      obtain ⟨item, rest⟩ := result
      have hone : Spread env.source line.start item.stop [item] :=
        ⟨hread.start_le, hread.fits, Nat.le_refl _⟩
      have hdone : ∃ mid, Spread env.source line.start mid [item] ∧ Lines mid hi rest :=
        ⟨item.stop, hone, hread.rest⟩
      dsimp only
      cases hdrop : rest.dropWhile (isBlankLine env.source) with
      | nil => exact hdone
      | cons next lines =>
          obtain ⟨hskipped, hleft⟩ := Lines.takeWhile hread.rest (isBlankLine env.source)
          rw [hdrop] at hleft
          have hnext := hleft.mono hskipped.le (Nat.le_refl hi)
          dsimp only
          cases hother : ListMarker.read? (unindented env.source next) with
          | none => exact hdone
          | some marker' =>
              dsimp only
              split
              · obtain ⟨mid, hitems, hrest⟩ := ih hnext hother
                exact ⟨mid, hone.append (hitems.mono hnext.1 (Nat.le_refl mid)), hrest⟩
              · exact hdone

omit hlines hhi he in
/-- A list has an item. -/
theorem listItems_ne_nil (indent : Nat) (first : ListMarker) (fuel : Nat) (marker : ListMarker) :
    (listItems env indent first (fuel + 1) line marker later).value.1 ≠ [] := by
  unfold listItems
  rw [value_bind]
  generalize (listItem env line marker later).value = result
  dsimp only
  split
  · exact List.cons_ne_nil _ _
  · split
    · split
      · exact List.cons_ne_nil _ _
      · exact List.cons_ne_nil _ _
    · exact List.cons_ne_nil _ _

include he in
theorem listBlock_read (h : listBlock env line later = some result) :
    BlockRead env.source line hi result.value := by
  obtain ⟨marker, hmarker, h⟩ := Option.bind_eq_some_iff.mp h
  obtain rfl := Option.some.inj h
  obtain ⟨mid, hitems, hrest⟩ := listItems_spread he hhi (indentOf env.source line) marker
    (later.length + 1) hlines hmarker
  have hne : (listItems env (indentOf env.source line) marker (later.length + 1) line marker
    later).value.1 ≠ [] := listItems_ne_nil _ _ _ _
  rw [value_bind]
  generalize (listItems env (indentOf env.source line) marker (later.length + 1) line marker
    later).value = read at hitems hrest hne ⊢
  obtain ⟨items, rest⟩ := read
  cases items with
  | nil => exact absurd rfl hne
  | cons item items =>
      exact BlockRead.enclosing ⟨Nat.le_refl _, hitems.2⟩ (List.cons_ne_nil _ _) hitems.1 hrest hhi

omit hhi hlines in
include he in
/-- The rows of a table follow each other. -/
theorem tableRows_spread {lines : List Span} (hlines : Lines lo hi lines)
    (hhi : hi ≤ env.source.size)
    (hsome : ∀ l ∈ lines, isBlankLine env.source l = false) :
    Spread env.source lo hi (tableRows env lines).value := by
  induction lines generalizing lo with
  | nil => exact hlines
  | cons line lines ih =>
      obtain ⟨hstart, hend, hstop⟩ := content_bounds hlines hhi List.mem_cons_self
      have hrest := ih hlines.2.2 fun l hl => hsome l (List.mem_cons_of_mem _ hl)
      have hlt := contentStart_lt hstop (hsome line List.mem_cons_self)
      have hrow : Run env.source.Holds (contentStart env.source line) line.stop
          [(tableRow env .tableRow line).value] := tableRow_run he hlines.2.1 hstop hlt
      exact ((Spread.ofRun hrow).mono (Nat.le_trans hlines.1 hstart) (Nat.le_refl _)).append hrest

include he in
theorem tableBlock_read (h : tableBlock env line later = some result) :
    BlockRead env.source line hi result.value := by
  obtain ⟨hstart, hend, hstop⟩ := content_bounds hlines hhi List.mem_cons_self
  unfold tableBlock at h
  dsimp only at h
  cases later with
  | nil => exact absurd h (by simp)
  | cons delimiter rest =>
      dsimp only at h
      split at h
      · exact absurd h (by simp)
      rename_i hpipe
      rw [Bool.not_eq_true', Bool.not_eq_false, List.contains_iff_mem] at hpipe
      obtain ⟨count, _, h⟩ := Option.bind_eq_some_iff.mp h
      split at h
      · exact absurd h (by simp)
      obtain rfl := Option.some.inj h
      have hlt : contentStart env.source line < line.stop := by
        have hsome := List.length_pos_of_mem hpipe
        rw [length_unindented hstop] at hsome
        omega
      have hheader : Run env.source.Holds (contentStart env.source line) line.stop
          [(tableRow env .tableHeader line).value] := tableRow_run he hlines.2.1 hstop hlt
      obtain ⟨hdelimiter, hdelimiterLe, hlater⟩ := hlines.2.2
      have hdelimiterStop := Nat.le_trans hlater.le hhi
      obtain ⟨hdelimiterStart, _⟩ := contentStart_bounds hdelimiterLe hdelimiterStop
      obtain ⟨hrow, hrowStop⟩ := rowStop_bounds hdelimiterLe hdelimiterStop
      have hleaf : Spread env.source line.stop delimiter.stop
          [leafOf env.source .tableDelimiter (contentStart env.source delimiter)
            (rowStop env.source delimiter)] :=
        Spread.leaf (Nat.le_trans hdelimiter hdelimiterStart) hrow hrowStop
          (Nat.le_trans hrowStop hdelimiterStop)
      obtain ⟨hbody, hrest⟩ := hlater.takeWhile fun l => !isBlankLine env.source l &&
        (unindented env.source l).contains '|' && !startsBlock env.source l
      rw [dropWhile_eq_drop] at hrest
      have hrows := tableRows_spread he hbody (Nat.le_trans hrest.le hhi) fun l hl => by
        have hrow := List.mem_takeWhile_imp hl
        rw [Bool.and_eq_true, Bool.and_eq_true, Bool.not_eq_true'] at hrow
        exact hrow.1.1
      exact BlockRead.filled ((Spread.ofRun hheader).append (hleaf.append hrows))
        (.inr (List.cons_ne_nil _ _)) hstart hrest hhi

include he in
theorem paragraph_read (hsome : isBlankLine env.source line = false) :
    BlockRead env.source line hi (paragraph env line later).value := by
  obtain ⟨hstart, hend, hstop⟩ := content_bounds hlines hhi List.mem_cons_self
  have hlt := contentStart_lt hstop hsome
  obtain ⟨hbody, hrest⟩ := hlines.2.2.takeWhile fun l =>
    !isBlankLine env.source l && !startsBlock env.source l
  rw [dropWhile_eq_drop] at hrest
  unfold paragraph
  dsimp only
  generalize (later.takeWhile fun l => !isBlankLine env.source l && !startsBlock env.source l) = body
    at hbody hrest ⊢
  have hbound := Nat.le_trans hrest.le hhi
  have hsegments := content_region hbody hbound hend
  have hrun := he.inline .full hsegments hbound
  have hle := hbody.le
  exact BlockRead.ofRun (markup_run .paragraph hrun (hrun.ne_nil (by omega))) hstart hrest

include he in
/-- **Every block is covered, and the lines that are left are behind it.** -/
theorem readBlock_read (hsome : isBlankLine env.source line = false) :
    BlockRead env.source line hi (readBlock env line later).value := by
  have hrules : ∀ rule ∈ blockRules, ∀ result, rule env line later = some result →
      BlockRead env.source line hi result.value := by
    intro rule hrule result h
    simp only [blockRules, List.mem_cons, List.not_mem_nil, or_false] at hrule
    rcases hrule with rfl | rfl | rfl | rfl | rfl | rfl | rfl | rfl | rfl | rfl
    · exact commentBlock_read hlines hhi h
    · exact scriptBlock_read hlines hhi h
    · exact attributeBlock_read hlines hhi h
    · exact componentBlock_read he hlines hhi h
    · exact mathBlock_read he hlines hhi h
    · exact codeBlock_read hlines hhi h
    · exact headingBlock_read he hlines hhi h
    · exact quoteBlock_read he hlines hhi h
    · exact listBlock_read he hlines hhi h
    · exact tableBlock_read he hlines hhi h
  unfold readBlock
  cases hfound : blockRules.findSome? fun rule => rule env line later with
  | none => exact paragraph_read he hlines hhi hsome
  | some result =>
      obtain ⟨rule, hrule, h⟩ := List.exists_of_findSome?_eq_some hfound
      exact hrules rule hrule result h

end Rules

/-! ## Documents -/

/-- The nodes of blocks lie between the places that their lines lie between. -/
theorem readBlocks_spread {env : BlockEnv} (he : env.Sound) (fuel : Nat) {lines : List Span}
    (h : Lines lo hi lines) (hhi : hi ≤ env.source.size) :
    Spread env.source lo hi (readBlocks env fuel lines).value := by
  induction fuel generalizing lo lines with
  | zero => exact h.le
  | succ fuel ih =>
      cases lines with
      | nil => exact h
      | cons line later =>
          unfold readBlocks
          split
          · exact ih (h.2.2.mono (Nat.le_trans h.1 h.2.1) (Nat.le_refl hi))
          · rename_i hblank
            have hread := readBlock_read he h hhi (Bool.eq_false_iff.mpr hblank)
            exact ⟨Nat.le_trans h.1 hread.start_le, hread.fits, ih hread.rest⟩

/-- **The nodes of a list of lines lie between the places that the lines lie between**, however deep blocks
may nest. -/
theorem blockNodes_spread (levels : Nat) {lines : List Span} (h : Lines lo hi lines)
    (hhi : hi ≤ src.size) : Spread src lo hi (blockNodes src levels lines).value := by
  induction levels generalizing lo hi lines with
  | zero =>
      unfold blockNodes
      dsimp only
      split
      · rename_i hlt
        cases lines with
        | nil => exact absurd hlt (Nat.lt_irrefl 0)
        | cons first later =>
            obtain ⟨hstart, hend⟩ := h.lastStop_bounds
            have hstop : (((first :: later).getLast?.map Span.stop).getD 0) =
                lastStop lo (first :: later) := by
              rw [lastStop_cons, ← lastStop_cons 0]
              rfl
            rw [hstop] at hlt ⊢
            exact Spread.leaf h.1 (Nat.le_of_lt hlt) hend (Nat.le_trans hend hhi)
      · exact h.le
  | succ levels ih =>
      have he : BlockEnv.Sound
          { source := src, inline := inlineNodes src (levels - 1), nested := blockNodes src levels } :=
        ⟨fun mode hregion hto => inlineNodes_run (levels - 1) hregion hto mode, ih⟩
      exact readBlocks_spread he lines.length h hhi

/-- **The root of a document covers its stretch**, whatever the text. -/
theorem readDocument_fits {s : Span} (hle : s.start ≤ s.stop) (hstop : s.stop ≤ src.size) :
    (readDocument src s).value.Fits src ∧ (readDocument src s).value.span = s := by
  have hlines := (lineSpans_region hle hstop).lines
  have hrun := fill_run (blockNodes_spread (maxDepth + 1) hlines hstop) hstop
  exact hrun.branchAt (.markup .document) (src.holds_empty (Nat.le_trans hle hstop))

/-- **The root of inline content covers its stretch**, whatever the text. -/
theorem readInlineContent_fits {s : Span} (hle : s.start ≤ s.stop) (hstop : s.stop ≤ src.size) :
    (readInlineContent src s).value.Fits src ∧ (readInlineContent src s).value.span = s := by
  have hrun := inlineNodes_run maxDepth (lineSpans_region hle hstop) hstop .full
  exact hrun.branchAt (.markup .inline) (src.holds_empty (Nat.le_trans hle hstop))

end ComponentMarkup.Markup
