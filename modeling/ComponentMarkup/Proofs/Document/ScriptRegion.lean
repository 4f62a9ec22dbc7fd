import ComponentMarkup.Proofs.Document.Lossless
import ComponentMarkup.Proofs.Script.Legible

/-!
# Scripts in a document

A script in a document hosts the trees of the commands embedded in it.  Its own leaves are still the tokens of
the stretch that it was read from: grafting changes nothing about a script but what its commands hold.

* `Mounts` — a way to host that leaves a node alone or gives it a tree of another grammar;
* `graft_madeOfTokens` — a script is made of tokens also after grafting;
* `Region` — what the leaves of a script without faults are like, wherever it stands;
* `graftedScript_region` — the script that a node of a document hosts is such a region.
-/

namespace ComponentMarkup.Document

open ComponentMarkup.Text ComponentMarkup.Tree ComponentMarkup.Script

variable {src : Source} {stop : Nat} {host : Choice → Node → Limited Node}

/-! ## Grafting -/

/-- A way to host grammars that leaves a node alone or gives it a tree. -/
def Mounts (host : Choice → Node → Limited Node) : Prop :=
  ∀ choice n, (host choice n).value = n ∨
    ∃ root, (host choice n).value = .hosting n.kind n.span choice root

/-- Nodes are left alone or given the trees of their grammars. -/
theorem hostNode_mounts (set : GrammarSet) (src : Source) (levels : Nat) (path : List (Choice × Span)) :
    Mounts (hostNode set src levels path) := by
  intro choice n
  cases levels with
  | zero =>
      unfold hostNode
      split
      · exact .inl rfl
      · split
        · exact .inl rfl
        · exact .inl rfl
  | succ levels =>
      unfold hostNode
      split
      · exact .inl rfl
      · split
        · exact .inl rfl
        · exact .inr ⟨_, rfl⟩

/-- Of the nodes of a script only commands host other grammars. -/
theorem choice?_script {k : ScriptKind} (hk : k ≠ .embed) : choice? (.script k) = none := by
  unfold choice?
  split <;> simp_all

/-- An embedded command stays one when it hosts its tree. -/
theorem mounts_madeOfTokens (hhost : Mounts host) {n : Node} (choice : Choice)
    (h : MadeOfTokens src stop n) (hkind : n.kind = .script .embed) (hreads : IsToken src stop .embed n.span) :
    MadeOfTokens src stop (host choice n).value := by
  rcases hhost choice n with hsame | ⟨root, hroot⟩
  · rw [hsame]
    exact h
  · rw [hroot, hkind]
    exact .command hreads

mutual

/-- Grafting leaves a script made of tokens. -/
theorem graft_madeOfTokens (hhost : Mounts host) (overflow : Option Nat) : ∀ n : Node,
    MadeOfTokens src stop n → MadeOfTokens src stop (graft host overflow n).value
  | .fault _ _ _ _, h => h
  | .leaf kind text span, h => by
      unfold graft
      split
      · exact h
      · split
        · rename_i choice hchoice
          cases h with
          | @token k _ _ reads =>
              by_cases hk : k = .embed
              · subst hk
                exact mounts_madeOfTokens hhost choice (.token reads) rfl reads
              · rw [choice?_script hk] at hchoice
                exact absurd hchoice (Option.some_ne_none choice).symm
          | last => exact absurd hchoice (Option.some_ne_none choice).symm
        · exact h
  | .inner kind span choice count faulty children, h => by
      unfold graft
      split
      · exact h
      · cases h with
        | @branch k _ _ _ _ plain flag parts =>
            rw [choice?_script plain]
            dsimp only
            split
            · exact .branch plain flag parts
            · exact .branch plain rfl (graftAll_madeOfTokens hhost none children parts)
        | command reads => exact mounts_madeOfTokens hhost _ (.command reads) rfl reads

/-- Grafting leaves several scripts made of tokens. -/
theorem graftAll_madeOfTokens (hhost : Mounts host) (overflow : Option Nat) : ∀ ns : List Node,
    AllTokens src stop ns → AllTokens src stop (graftAll host overflow ns).value
  | [], _ => AllTokens.nil
  | n :: ns, h => by
      have hfirst := graft_madeOfTokens hhost overflow n (h n List.mem_cons_self)
      have hothers := graftAll_madeOfTokens hhost (graft host overflow n).overflow ns
        fun m hm => h m (List.mem_cons_of_mem n hm)
      intro m hm
      rcases List.mem_cons.mp hm with rfl | hm
      · exact hfirst
      · exact hothers m hm

end

/-! ## Regions -/

/-- A script without faults, in front of a text: the lexer reads its leaves one after the other.  Where the script
stands does not matter. -/
structure Region (n : Node) (rest : List Char) : Prop where
  legible : Legible n.atoms rest
  tips : ∀ t ∈ n.tips, ∃ k, t.kind = .script k ∧ (k = .embed → t.fullText.isEmpty = false)
  named : ∀ t ∈ n.tips, t.IsNamed

/-- The leaves of a script made of tokens without faults. -/
theorem madeOfTokens_tips (hsize : stop ≤ src.size) {n : Node} (h : MadeOfTokens src stop n)
    (hfits : n.Fits src) (hstop : n.stop ≤ stop) (hclean : n.faulty = false) :
    ∀ t ∈ n.tips, (∃ k, t.kind = .script k ∧ (k = .embed → t.fullText.isEmpty = false)) ∧ t.IsNamed := by
  induction h with
  | @token k text span reads =>
      intro t ht
      obtain rfl := List.mem_singleton.mp ht
      have hholds := hfits.holds_fullText (joinable_places src)
      exact ⟨⟨k, rfl, fun _ => (reads.readsIn hholds hstop hsize).1⟩, reads.named rfl hholds hstop⟩
  | @command span choice count faulty children reads =>
      intro t ht
      obtain rfl : t = .inner (.script .embed) span (some choice) count faulty children := List.mem_singleton.mp ht
      have hholds := hfits.holds_fullText (joinable_places src)
      exact ⟨⟨.embed, rfl, fun _ => (reads.readsIn hholds hstop hsize).1⟩, reads.named rfl hholds hstop⟩
  | fault => exact absurd hclean (by simp [Node.faulty])
  | last =>
      intro t ht
      obtain rfl := List.mem_singleton.mp ht
      exact ⟨⟨.endOfTokens, rfl, fun hk => absurd hk (by decide)⟩, fun _ c _ hc => absurd hc (Option.some_ne_none c).symm⟩
  | @branch k span count faulty children plain flag parts ih =>
      cases hfits with
      | inner chain empty hosted tiles =>
          have hkind : (Kind.script k == .script .embed) = false := by simpa using plain
          rw [Node.faulty] at hclean
          rw [hclean] at flag
          have hchildren := List.any_eq_false.mp flag.symm
          have hrun : Run src.Holds span.start span.stop children := ⟨chain, tiles⟩
          intro t ht
          rw [Node.tips, hkind, if_neg Bool.false_ne_true, Node.tipsOf_eq] at ht
          obtain ⟨child, hchild, ht⟩ := List.mem_flatMap.mp ht
          refine ih child hchild (tiles child hchild) ?_ (Bool.eq_false_iff.mpr (hchildren child hchild)) t ht
          exact Nat.le_trans (hrun.stop_le (joinable_places src) hchild) hstop

/-- A script without faults that is made of tokens is a region. -/
theorem madeOfTokens_region (hsize : stop ≤ src.size) {n : Node} (h : MadeOfTokens src stop n)
    (hfits : n.Fits src) (hstop : n.stop ≤ stop) (hclean : n.faulty = false) :
    Region n (src.slice n.stop stop) :=
  have htips := madeOfTokens_tips hsize h hfits hstop hclean
  ⟨(h.writtenOut hsize hfits hstop hclean).legible, fun t ht => (htips t ht).1, fun t ht => (htips t ht).2⟩

/-- A region is one wherever it stands. -/
theorem Region.mapPlaces {n : Node} {rest : List Char} (h : Region n rest) (f : Nat → Nat) :
    Region (n.mapPlaces f) rest := by
  have htips : ∀ t ∈ (n.mapPlaces f).tips, ∃ m ∈ n.tips, t = m.mapPlaces f := by
    intro t ht
    rw [Node.tips_mapPlaces] at ht
    obtain ⟨m, hm, rfl⟩ := List.mem_map.mp ht
    exact ⟨m, hm, rfl⟩
  refine ⟨?_, fun t ht => ?_, fun t ht => ?_⟩
  · rw [Node.atoms_mapPlaces]
    exact h.legible
  · obtain ⟨m, hm, rfl⟩ := htips t ht
    rw [Node.kind_mapPlaces, Node.fullText_mapPlaces]
    exact h.tips m hm
  · obtain ⟨m, hm, rfl⟩ := htips t ht
    exact (Node.isNamed_mapPlaces f).mpr (h.named m hm)

/-- The children of a region are regions. -/
theorem Region.child {root n : Node} {rest : List Char} (h : Region root rest)
    (hkind : root.kind ≠ .script .embed) (hn : n ∈ root.children) : ∃ rest', Region n rest' := by
  cases root with
  | leaf => exact absurd hn List.not_mem_nil
  | fault => exact absurd hn List.not_mem_nil
  | inner k s c count faulty children =>
      obtain ⟨before, after, rfl⟩ := List.append_of_mem (show n ∈ children from hn)
      have hk : k ≠ .script .embed := hkind
      have hatoms := h.legible
      rw [atoms_inner hk, List.flatMap_append, List.flatMap_cons] at hatoms
      obtain ⟨_, hrest⟩ := legible_append.mp hatoms
      have htips : ∀ t ∈ n.tips, t ∈ (Node.inner k s c count faulty (before ++ n :: after)).tips := fun t ht => by
        rw [Node.tips, beq_eq_false_iff_ne.mpr hk, if_neg Bool.false_ne_true, Node.tipsOf_eq]
        exact List.mem_flatMap.mpr ⟨n, hn, ht⟩
      exact ⟨_, (legible_append.mp hrest).1, fun t ht => h.tips t (htips t ht), fun t ht => h.named t (htips t ht)⟩

/-- Grafting keeps the kind of a node that hosts nothing. -/
theorem graft_kind {n : Node} (h : choice? n.kind = none) (overflow : Option Nat) :
    (graft host overflow n).value.kind = n.kind := by
  cases n with
  | fault => rfl
  | leaf k t s =>
      unfold graft
      split
      · rfl
      · rw [show choice? k = none from h]
  | inner k s c count faulty children =>
      unfold graft
      split
      · rfl
      · rw [show choice? k = none from h]
        dsimp only
        split
        · rfl
        · rfl

/-- The root of a script is no command. -/
theorem readEntry_kind (src : Source) (s : Span) (entry : Entry) :
    ∃ k, (readEntry src s entry).value.kind = .script k ∧ k ≠ .embed := by
  have hfinish : ∀ (p : Parser) (k : ScriptKind), (p.finish k).value.kind = .script k := by
    intro p k
    show (Node.branchAt _ _ _).kind = _
    unfold Node.branchAt
    split
    · rfl
    · rfl
  cases entry with
  | statements => exact ⟨.statements, hfinish _ _, by decide⟩
  | expression => exact ⟨.expression, hfinish _ _, by decide⟩
  | attributes => exact ⟨.attributes, hfinish _ _, by decide⟩

/-- A script as a node of a document hosts it: read from an entry point, and with its commands grafted. -/
def graftedScript (set : GrammarSet) (src : Source) (levels : Nat) (path : List (Choice × Span))
    (overflow : Option Nat) (s : Span) (entry : Entry) : Node :=
  (graft (hostNode set src levels path) overflow (readEntry src s entry).value).value

variable {set : GrammarSet} {levels : Nat} {path : List (Choice × Span)} {overflow : Option Nat} {s : Span}

theorem graftedScript_kind (entry : Entry) :
    (graftedScript set src levels path overflow s entry).kind ≠ .script .embed := by
  obtain ⟨k, hkind, hk⟩ := readEntry_kind src s entry
  have hchoice : choice? (readEntry src s entry).value.kind = none := by
    rw [hkind]
    exact choice?_script hk
  rw [graftedScript, graft_kind hchoice, hkind]
  exact fun heq => hk (Kind.script.inj heq)

/-- **A script that a node of a document hosts is a region**, if it has no faults. -/
theorem graftedScript_region (hset : set.Faithful) (hle : s.start ≤ s.stop) (hstop : s.stop ≤ src.size)
    (entry : Entry) (hclean : (graftedScript set src levels path overflow s entry).faulty = false) :
    Region (graftedScript set src levels path overflow s entry) [] := by
  obtain ⟨hfits, hspan⟩ := readEntry_fits entry hle hstop
  obtain ⟨hgrafted, hgraftedSpan⟩ := graft_fits (hostNode_fits hset levels path) overflow _ hfits
  have htokens := graft_madeOfTokens (hostNode_mounts set src levels path) overflow _
    (readEntry_tokens hle hstop entry)
  have hend : (graftedScript set src levels path overflow s entry).stop = s.stop :=
    congrArg Span.stop (hgraftedSpan.trans hspan)
  have hregion := madeOfTokens_region hstop htokens hgrafted (Nat.le_of_eq hend) hclean
  rwa [show (graft (hostNode set src levels path) overflow (readEntry src s entry).value).value.stop = s.stop
    from hend, src.slice_self] at hregion

end ComponentMarkup.Document
