import ComponentMarkup.Document.Parse
import ComponentMarkup.Proofs.Document.Views
import ComponentMarkup.Proofs.Script.Chains
import ComponentMarkup.Proofs.Text.Lines

/-!
# Documents of any depth

Nesting is limited wherever a rule calls itself, but an expression grows around what was read of it without any such
call.  So there are documents of any height: one line of script with a word and enough increments behind it.

* `graft_chain` — nothing is grafted into a chain of increments;
* `readDocument_script` — a line of script is a document with a script in it;
* `parse_unbounded` — no number bounds the heights of all trees that are read.
-/

namespace ComponentMarkup.Tree.Node

mutual

/-- A tree is as high wherever it stands. -/
theorem height_mapPlaces (f : Nat → Nat) : ∀ n : Node, (n.mapPlaces f).height = n.height
  | leaf _ _ _ => rfl
  | fault _ _ _ _ => rfl
  | inner k s host c b cs => by rw [mapPlaces, height, height, heightOf_mapPlacesOf f cs]

theorem heightOf_mapPlacesOf (f : Nat → Nat) : ∀ ns : List Node, heightOf (mapPlacesOf f ns) = heightOf ns
  | [] => rfl
  | n :: ns => by rw [mapPlacesOf, heightOf, heightOf, height_mapPlaces f n, heightOf_mapPlacesOf f ns]

end

theorem height_le_heightOf {n : Node} {ns : List Node} (h : n ∈ ns) : n.height ≤ heightOf ns := by
  induction ns with
  | nil => exact absurd h List.not_mem_nil
  | cons m ns ih =>
      rw [heightOf]
      rcases List.mem_cons.mp h with rfl | h
      · exact Nat.le_max_left _ _
      · exact Nat.le_trans (ih h) (Nat.le_max_right _ _)

/-- No node of a tree is higher than the tree. -/
theorem Within.height_le {root n : Node} (h : Within root n) : n.height ≤ root.height := by
  induction h with
  | root => exact Nat.le_refl _
  | @child n m _ hm ih =>
      refine Nat.le_trans ?_ ih
      cases n with
      | leaf => exact absurd hm List.not_mem_nil
      | fault => exact absurd hm List.not_mem_nil
      | inner k s host c b cs => exact Nat.le_succ_of_le (height_le_heightOf hm)

end ComponentMarkup.Tree.Node

namespace ComponentMarkup.Document

open ComponentMarkup.Text ComponentMarkup.Tree ComponentMarkup.Script ComponentMarkup.Markup

/-! ## Grafting a chain -/

variable {host : Choice → Node → Limited Node}

/-- Nothing is grafted into a chain. -/
theorem graft_chain {n : Nat} {node : Node} (h : Chain n node) : graft host none node = ⟨node, none⟩ := by
  induction h with
  | word text span => rfl
  | step text span _ ih =>
      rw [Node.branch, Node.spanning, graft]
      simp only [Option.isSome_none, Bool.false_eq_true, if_false, choice?, graftAll, ih]
      rfl

/-- Nothing is grafted into a script that is a chain. -/
theorem graft_chainScript {n : Nat} {node : Node} (h : Chain n node) :
    graft host none (.branch (.script .statements) [.branch (.script .exprStmt) [node]]) =
      ⟨.branch (.script .statements) [.branch (.script .exprStmt) [node]], none⟩ := by
  simp only [Node.branch, Node.spanning, graft, Option.isSome_none, Bool.false_eq_true, if_false, choice?, graftAll,
    graft_chain h]
  rfl

/-! ## A line of script -/

variable {src : Source} {cs : List Char}

/-- The tree of a line of script. -/
def scriptLine (src : Source) : Node :=
  .branch (.markup .document) [.branch (.markup .script)
    [leafOf src .scriptMark 0 1, leafOf src .scriptBody 1 src.size]]

/-- There are no gaps between the mark of a script and its body. -/
theorem fill_scriptLine (hlong : 1 < src.size) :
    fill src 0 src.size [leafOf src .scriptMark 0 1, leafOf src .scriptBody 1 src.size] =
      [leafOf src .scriptMark 0 1, leafOf src .scriptBody 1 src.size] := by
  have hmax : max 1 src.size = src.size := Nat.max_eq_right (Nat.le_of_lt hlong)
  simp [fill, gap, leafOf, Node.start, Node.stop, Node.span, hmax]

/-- The rule for scripts reads a line that starts with their mark. -/
theorem scriptBlock_line {env : BlockEnv} {c : Char} (hlong : 1 < env.source.size)
    (hline : unindented env.source ⟨0, env.source.size⟩ = '%' :: c :: cs) (hc : c ≠ '%')
    (hstart : contentStart env.source ⟨0, env.source.size⟩ = 0) :
    scriptBlock env ⟨0, env.source.size⟩ [] = some ⟨(.branch (.markup .script)
      [leafOf env.source .scriptMark 0 1, leafOf env.source .scriptBody 1 env.source.size], []), none⟩ := by
  have hfence : (List.take 3 ('%' :: c :: cs) == ['%', '%', '%']) = false := by
    cases cs <;> simp [hc]
  have hnodes : enclosing env.source .script 0
      [leafOf env.source .scriptMark 0 1, leafOf env.source .scriptBody 1 env.source.size] =
        .branch (.markup .script) [leafOf env.source .scriptMark 0 1, leafOf env.source .scriptBody 1 env.source.size] :=
    congrArg (Node.markup .script) (fill_scriptLine hlong)
  simp only [scriptBlock, hline, hstart, hfence, Nat.zero_add, hlong, if_true, Bool.false_eq_true, if_false, hnodes]
  rfl

/-- **A line of script is a document with a script in it.** -/
theorem readDocument_script {c : Char} (hsrc : src.slice 0 src.size = '%' :: c :: cs) (hc : c ≠ '%')
    (hlines : ∀ d ∈ '%' :: c :: cs, isNewline d = false) : readDocument src src.whole = ⟨scriptLine src, none⟩ := by
  have hlong : 1 < src.size := by
    have hlength := src.length_slice (i := 0) (Nat.le_refl src.size)
    rw [hsrc, Nat.sub_zero, List.length_cons, List.length_cons] at hlength
    omega
  have hspans : lineSpans src src.whole = [⟨0, src.size⟩] := by
    have hcut := cutLines_single 0 0 (show ∀ c ∈ src.slice 0 src.size, isNewline c = false by rwa [hsrc])
    rw [src.length_slice (Nat.le_refl _), Nat.zero_add] at hcut
    exact hcut
  have hchars : lineChars src ⟨0, src.size⟩ = '%' :: c :: cs := hsrc
  have hblank : isBlankLine src ⟨0, src.size⟩ = false := by
    rw [isBlankLine, hchars]
    rfl
  have hunindented : unindented src ⟨0, src.size⟩ = '%' :: c :: cs := by
    rw [unindented, hchars]
    rfl
  have hstart : contentStart src ⟨0, src.size⟩ = 0 := by
    rw [contentStart, indentOf, hchars]
    rfl
  have hblock : ∀ env : BlockEnv, env.source = src → Markup.readBlock env ⟨0, src.size⟩ [] =
      ⟨(.branch (.markup .script) [leafOf src .scriptMark 0 1, leafOf src .scriptBody 1 src.size], []), none⟩ := by
    rintro env rfl
    have hcomment : commentBlock env ⟨0, env.source.size⟩ [] = none := by
      simp [commentBlock, hunindented, startsComment]
    rw [Markup.readBlock, blockRules, List.findSome?_cons, hcomment]
    simp only [List.findSome?_cons, scriptBlock_line hlong hunindented hc hstart, Option.getD_some]
  have hnodes : blockNodes src (maxDepth + 1) [⟨0, src.size⟩] = ⟨[.branch (.markup .script)
      [leafOf src .scriptMark 0 1, leafOf src .scriptBody 1 src.size]], none⟩ := by
    rw [blockNodes]
    simp only [List.length_singleton, readBlocks, hblank, Bool.false_eq_true, if_false, hblock]
    rfl
  have hfilled : fill src 0 src.size [.branch (.markup .script)
      [leafOf src .scriptMark 0 1, leafOf src .scriptBody 1 src.size]] = [.branch (.markup .script)
      [leafOf src .scriptMark 0 1, leafOf src .scriptBody 1 src.size]] := by
    simp [fill, gap, Node.branch, Node.spanning, leafOf, Node.start, Node.stop, Node.span]
  rw [readDocument, hspans, hnodes]
  exact congrArg (fun nodes => (⟨.branchAt (.markup .document) 0 nodes, none⟩ : Limited Node)) hfilled

/-! ## Heights -/

/-- The tree of a line of script into which a script is grafted. -/
def mountedLine (src : Source) (script : Node) : Node :=
  .branch (.markup .document) [.branch (.markup .script)
    [leafOf src .scriptMark 0 1, .hosting (.markup .scriptBody) ⟨1, src.size⟩ ⟨"script", "statements"⟩ script]]

theorem mountedLine_within (src : Source) (script : Node) : Node.Within (mountedLine src script) script := by
  have hline : Node.Within (mountedLine src script) (.branch (.markup .script) [leafOf src .scriptMark 0 1,
      .hosting (.markup .scriptBody) ⟨1, src.size⟩ ⟨"script", "statements"⟩ script]) :=
    .child .root (List.mem_singleton.mpr rfl)
  have hbody := hline.child (List.mem_cons_of_mem _ (List.mem_singleton.mpr rfl))
  exact hbody.child (List.mem_singleton.mpr rfl)

/-- A script that is not nested too deep is grafted into its line as it is. -/
theorem graftRoot_script {script : Node} (hread : readNamed src ⟨1, src.size⟩ "statements" = ⟨script, none⟩)
    (hgraft : ∀ host, graft host none script = ⟨script, none⟩) :
    graftRoot .standard src ⟨scriptLine src, none⟩ = ⟨mountedLine src script, none⟩ := by
  have hscript : GrammarSet.standard.get? "script" = some .script := rfl
  have hentry : (Grammar.script.entries.contains "statements") = true := rfl
  have hhost : hostNode .standard src (255 + 1) [] ⟨"script", "statements"⟩ (leafOf src .scriptBody 1 src.size) =
      ⟨.hosting (.markup .scriptBody) ⟨1, src.size⟩ ⟨"script", "statements"⟩ script, none⟩ := by
    have hparsed : Grammar.script.parse src (leafOf src .scriptBody 1 src.size).span "statements" = ⟨script, none⟩ := hread
    rw [hostNode, hscript]
    simp only [hentry, hparsed, hgraft]
    rfl
  have hslot : graft (hostNode .standard src (255 + 1) []) none (leafOf src .scriptBody 1 src.size) =
      ⟨.hosting (.markup .scriptBody) ⟨1, src.size⟩ ⟨"script", "statements"⟩ script, none⟩ := hhost
  have hmark : graft (hostNode .standard src (255 + 1) []) none (leafOf src .scriptMark 0 1) =
      ⟨leafOf src .scriptMark 0 1, none⟩ := rfl
  show graft (hostNode .standard src (255 + 1) []) none (scriptLine src) = _
  simp only [scriptLine, Node.branch, Node.spanning, graft, Option.isSome_none, Bool.false_eq_true, if_false, choice?,
    graftAll, hmark, hslot]
  rfl

/-- A line of script is read as the tree into which its script is grafted. -/
theorem parseSource_script {c : Char} {script : Node} (hsrc : src.slice 0 src.size = '%' :: c :: cs) (hc : c ≠ '%')
    (hlines : ∀ d ∈ '%' :: c :: cs, isNewline d = false)
    (hread : readNamed src ⟨1, src.size⟩ "statements" = ⟨script, none⟩)
    (hgraft : ∀ host, graft host none script = ⟨script, none⟩) :
    parseSource .standard src = .ok (mountedLine src script) := by
  have hmarkup : GrammarSet.standard.get? "markup" = some .markup := rfl
  have hdocument : Grammar.markup.parse src src.whole "document" = ⟨scriptLine src, none⟩ :=
    readDocument_script hsrc hc hlines
  rw [parseSource, hmarkup]
  simp only [hdocument, graftRoot_script hread hgraft]

/-! ## Lines of increments -/

/-- A line of script with a word and more increments than a number. -/
def incrementLine (n : Nat) : String :=
  String.ofList ('%' :: 'a' :: increments (n + 1))

theorem incrementLine_slice (n : Nat) :
    (Source.ofString (incrementLine n)).slice 0 (Source.ofString (incrementLine n)).size =
      '%' :: 'a' :: increments (n + 1) := by
  have hlist : (Source.ofString (incrementLine n)).chars.toList = '%' :: 'a' :: increments (n + 1) :=
    String.toList_ofList
  have hsize : (Source.ofString (incrementLine n)).size = (Source.ofString (incrementLine n)).chars.toList.length := rfl
  rw [Source.slice_eq, List.drop_zero, Nat.sub_zero, hsize, List.take_length, hlist]

theorem incrementLine_plain (n : Nat) : ∀ d ∈ '%' :: 'a' :: increments (n + 1), isNewline d = false := by
  intro d hd
  have hcases : d = '%' ∨ d = 'a' ∨ d = '+' := by
    refine (List.mem_cons.mp hd).imp_right fun hd => (List.mem_cons.mp hd).imp_right fun hd => ?_
    obtain ⟨pair, hpair, hmem⟩ := List.mem_flatten.mp hd
    obtain ⟨-, rfl⟩ := List.mem_replicate.mp hpair
    simpa using hmem
  rcases hcases with rfl | rfl | rfl <;> rfl

/-- A line of increments is read as a tree that is higher than there are increments. -/
theorem parse_incrementLine (n : Nat) : ∃ root, parse (incrementLine n) = .ok root ∧ n < root.height := by
  obtain ⟨src, hsrc⟩ : ∃ src, src = Source.ofString (incrementLine n) := ⟨_, rfl⟩
  have hchars : src.slice 0 src.size = '%' :: 'a' :: increments (n + 1) := by
    rw [hsrc]
    exact incrementLine_slice n
  obtain ⟨chain, hchain, hread⟩ := @readNamed_chain n src ⟨1, src.size⟩ (src.slice_tail hchars)
  have hsource := parseSource_script hchars (by decide) (incrementLine_plain n) hread
    fun host => graft_chainScript hchain
  have hparse : parse (incrementLine n) = .ok ((mountedLine src (.branch (.script .statements)
      [.branch (.script .exprStmt) [chain]])).inBytes src.byteOffsets) := by
    rw [parse, parseWith, ← hsrc, hsource]
    rfl
  refine ⟨_, hparse, ?_⟩
  have hstatement := (mountedLine_within src (.branch (.script .statements) [.branch (.script .exprStmt) [chain]])).child
    (List.mem_singleton.mpr rfl)
  have hwithin := hstatement.child (m := chain) (List.mem_singleton.mpr rfl)
  have hle := hwithin.height_le
  rw [hchain.height] at hle
  rw [Node.inBytes, Node.height_mapPlaces]
  omega

/-- **No number bounds the heights of all trees that are read.** -/
theorem parse_unbounded : ¬ ∃ bound, ∀ text root, parse text = .ok root → root.height ≤ bound := by
  rintro ⟨bound, hbound⟩
  obtain ⟨root, hparse, hheight⟩ := parse_incrementLine bound
  exact absurd (hbound _ root hparse) (Nat.not_le_of_lt hheight)

end ComponentMarkup.Document
