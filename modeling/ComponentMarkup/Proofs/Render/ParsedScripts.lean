import ComponentMarkup.Proofs.Document.Mounting
import ComponentMarkup.Proofs.Render.ScriptOrigins

/-!
# Scripts of documents without faults

If nothing is wrong with a text, then no node of its tree is faulty, and each node that holds script hosts the tree
that the grammar of scripts reads there.  The lexer reads the tips of that tree as they are written, which is all
that rendering needs to know of scripts.

* `Mounted.clean` — no node of a tree without faults is faulty;
* `parse_soundScripts` — the scripts of a text without faults have tips that the lexer reads.
-/

namespace ComponentMarkup.Tree.Node

variable {root n m : Node} (f : Nat → Nat)

/-- The nodes of a moved tree are moved nodes. -/
theorem Within.of_mapPlaces (h : Within (root.mapPlaces f) m) : ∃ n, Within root n ∧ m = n.mapPlaces f := by
  induction h with
  | root => exact ⟨root, .root, rfl⟩
  | child _ mem ih =>
      obtain ⟨n, hn, rfl⟩ := ih
      rw [children_mapPlaces] at mem
      obtain ⟨child, hchild, rfl⟩ := List.mem_map.mp mem
      exact ⟨child, hn.child hchild, rfl⟩

mutual

/-- As much is wrong with a tree wherever it stands. -/
theorem faults_mapPlaces_eq_nil : ∀ n : Node, (n.mapPlaces f).faults = [] → n.faults = []
  | leaf _ _ _, _ => rfl
  | fault _ _ _ _, h => absurd h (List.cons_ne_nil _ _)
  | inner k s host c b cs, h => by
      cases b with
      | false => rfl
      | true => exact faultsOf_mapPlaces_eq_nil cs h

theorem faultsOf_mapPlaces_eq_nil : ∀ ns : List Node, faultsOf (mapPlacesOf f ns) = [] → faultsOf ns = []
  | [], _ => rfl
  | n :: ns, h => by
      rw [mapPlacesOf, faultsOf, faulty_mapPlaces, List.append_eq_nil_iff] at h
      rw [faultsOf, List.append_eq_nil_iff]
      refine ⟨?_, faultsOf_mapPlaces_eq_nil ns h.2⟩
      split
      · rename_i hfaulty
        rw [if_pos hfaulty] at h
        exact faults_mapPlaces_eq_nil n h.1
      · rfl

end

mutual

/-- The tips of a script are nodes of it. -/
theorem within_tips : ∀ n : Node, m ∈ n.tips → Within n m
  | leaf _ _ _, h => List.mem_singleton.mp h ▸ .root
  | fault _ _ _ _, h => List.mem_singleton.mp h ▸ .root
  | inner k s host c b cs, h => by
      rw [tips] at h
      split at h
      · exact List.mem_singleton.mp h ▸ .root
      · obtain ⟨child, hchild, hwithin⟩ := within_tipsOf cs h
        exact (Within.child .root hchild).trans hwithin

theorem within_tipsOf : ∀ ns : List Node, m ∈ tipsOf ns → ∃ n ∈ ns, Within n m
  | [], h => absurd h List.not_mem_nil
  | n :: ns, h => by
      rcases List.mem_append.mp h with h | h
      · exact ⟨n, List.mem_cons_self, within_tips n h⟩
      · obtain ⟨child, hchild, hwithin⟩ := within_tipsOf ns h
        exact ⟨child, List.mem_cons_of_mem n hchild, hwithin⟩

end

end ComponentMarkup.Tree.Node

namespace ComponentMarkup.Document

open ComponentMarkup.Text ComponentMarkup.Tree

variable {src : Source} {path : List (Choice × Span)} {n m : Node}

/-- The nodes of a mounted tree are mounted. -/
theorem Mounted.within (h : Mounted src path n) (hm : Node.Within n m) : ∃ path', Mounted src path' m := by
  induction hm with
  | root => exact ⟨path, h⟩
  | child _ mem ih =>
      obtain ⟨path', hparent⟩ := ih
      cases hparent with
      | leaf => exact absurd mem List.not_mem_nil
      | fault => exact absurd mem List.not_mem_nil
      | branch _ _ parts => exact ⟨path', parts _ mem⟩
      | mount _ _ _ _ _ _ _ below => exact ⟨_, List.mem_singleton.mp mem ▸ below⟩

/-- What is below a node that is not faulty is not faulty. -/
theorem Mounted.faulty_child (h : Mounted src path n) (hm : m ∈ n.children) (hclean : n.faulty = false) :
    m.faulty = false := by
  cases h with
  | leaf => exact absurd hm List.not_mem_nil
  | fault => exact absurd hm List.not_mem_nil
  | branch _ flag _ =>
      have hnone := flag.symm.trans hclean
      exact Bool.eq_false_iff.mpr (List.any_eq_false.mp hnone m hm)
  | mount =>
      obtain rfl := List.mem_singleton.mp hm
      exact (Bool.or_eq_false_iff.mp hclean).1

/-- No node of a tree that is not faulty is faulty. -/
theorem Mounted.clean (h : Mounted src path n) (hclean : n.faulty = false) (hm : Node.Within n m) :
    m.faulty = false := by
  induction hm with
  | root => exact hclean
  | child parent mem ih =>
      obtain ⟨_, hparent⟩ := h.within parent
      exact hparent.faulty_child mem ih

/-- Something is wrong with trees one of which is wrong. -/
theorem faultsOf_ne_nil {ns : List Node} (hn : n ∈ ns) (hfaulty : n.faulty = true) (hfaults : n.faults ≠ []) :
    Node.faultsOf ns ≠ [] := by
  induction ns with
  | nil => exact absurd hn List.not_mem_nil
  | cons first ns ih =>
      rw [Node.faultsOf, ne_eq, List.append_eq_nil_iff]
      rintro ⟨hfirst, hothers⟩
      rcases List.mem_cons.mp hn with rfl | hn
      · rw [if_pos hfaulty] at hfirst
        exact hfaults hfirst
      · exact ih hn hothers

/-- Something is wrong with a faulty tree. -/
theorem Mounted.faults_ne_nil (h : Mounted src path n) (hfaulty : n.faulty = true) : n.faults ≠ [] := by
  induction h with
  | leaf => exact absurd hfaulty Bool.false_ne_true
  | fault => exact List.cons_ne_nil _ _
  | branch _ flag _ ih =>
      have hsome := flag.symm.trans hfaulty
      obtain ⟨child, hchild, hwrong⟩ := List.any_eq_true.mp hsome
      intro hnone
      rw [Node.faults] at hnone
      exact faultsOf_ne_nil hchild hwrong (ih child hchild hwrong) ((if_pos hfaulty).symm.trans hnone)
  | @mount _ _ _ _ _ root _ _ _ _ _ _ _ _ _ ih =>
      have hwrong : root.faulty = true := (Bool.or_false _).symm.trans hfaulty
      intro hnone
      rw [Node.hosting, Node.spanning, Node.faults] at hnone
      exact faultsOf_ne_nil List.mem_cons_self hwrong (ih hwrong) ((if_pos hfaulty).symm.trans hnone)

end ComponentMarkup.Document

namespace ComponentMarkup.Render

open ComponentMarkup.Text ComponentMarkup.Tree ComponentMarkup.Document ComponentMarkup.Script

/-! ## Texts without faults -/

variable {text : String} {root : Node}

/-- The entry points that nodes ask the grammar of scripts for are its own. -/
theorem choice?_entry {kind : Kind} {entry : String} (h : choice? kind = some ⟨"script", entry⟩) :
    ∃ known, Entry.ofName? entry = some known := by
  unfold choice? at h
  split at h
  all_goals first
    | exact absurd h (Option.some_ne_none _).symm
    | (obtain ⟨hgrammar, rfl⟩ := Choice.mk.inj (Option.some.inj h)
       first
       | exact ⟨_, rfl⟩
       | exact absurd hgrammar (by decide))

/-- A tip of a region of a tree is one that the lexer reads. -/
theorem region_tipOf {script : Node} {rest : List Char} (h : Region script rest) (hscript : Node.Within root script)
    {t : Node} (ht : t ∈ script.tips) : TipOf root t where
  within := hscript.trans (Node.within_tips script ht)
  script := h.tips t ht
  reads := by
    intro a ha
    have hatom : a ∈ script.atoms := List.mem_filterMap.mpr ⟨t, ht, ha⟩
    obtain ⟨before, after, hatoms⟩ := List.append_of_mem hatom
    have hlegible := h.legible
    rw [hatoms] at hlegible
    exact ⟨_, (legible_append.mp hlegible).2.1⟩
  named := h.named t ht

/-- **The scripts of a text without faults have tips that the lexer reads.** -/
theorem parse_soundScripts (h : parse text = .ok root) (hclean : root.faults = []) : SoundScripts root := by
  obtain ⟨placed, hplaced, rfl⟩ := parse_placed h
  have hwhole := (parseSource_fits standard_faithful hplaced).1
  have hmounted := parseSource_mounted hplaced
  have hsound : placed.faulty = false := by
    refine Bool.eq_false_iff.mpr fun hfaulty => hmounted.faults_ne_nil hfaulty ?_
    exact Node.faults_mapPlaces_eq_nil _ placed hclean
  rintro host script ⟨hhost, entry, hentry⟩ hscript
  have hwithin := hhost.hostedRoot? hscript
  obtain ⟨placedHost, hplacedHost, rfl⟩ := hhost.of_mapPlaces
  obtain ⟨path, hmount⟩ := hmounted.within hplacedHost
  rw [Node.kind_mapPlaces] at hentry
  obtain ⟨g, hosted, levels, hosting, found, -, -, grafted, -, -⟩ := hmount.hosts hentry
  obtain ⟨known, hknown⟩ := choice?_entry hentry
  -- what the node hosts is what the grammar of scripts reads there, its own slots filled
  obtain rfl : g = Grammar.script := (Option.some.inj (found.symm.trans rfl))
  have hgrafted : hosted = graftedScript .standard (Source.ofString text) levels
      ((⟨"script", entry⟩, placedHost.span) :: path) none placedHost.span known := by
    rw [grafted, graftedScript]
    show (graft _ none (readNamed _ _ entry).value).value = _
    rw [readNamed, hknown]
  obtain ⟨depth, hdepth⟩ := hplacedHost.outline
  have hfits := (Node.outline_tiles (joinable_places _) 0 _ hwhole _ hdepth).1
  have hmember : Node.Within placed hosted := hplacedHost.child (by rw [hosting]; exact List.mem_cons_self)
  have hregion := graftedScript_region standard_faithful (Node.Fits.le hfits) (Node.Fits.stop_le hfits) known
    (hgrafted ▸ hmounted.clean hsound hmember)
  rw [← hgrafted] at hregion
  obtain rfl : script = hosted.inBytes (Source.ofString text).byteOffsets := by
    rw [hosting] at hscript
    exact (Option.some.inj hscript).symm
  refine ⟨?_, fun t ht => region_tipOf (hregion.mapPlaces _) hwithin ht⟩
  rw [Node.inBytes, Node.kind_mapPlaces, hgrafted]
  exact graftedScript_kind known

end ComponentMarkup.Render
