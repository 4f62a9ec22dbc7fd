import ComponentMarkup.Proofs.Markup.BlockTiling
import ComponentMarkup.Proofs.Markup.Heredity

/-!
# What the nodes of blocks have in common

A property of nodes that branches inherit from their children holds of all blocks, if it holds of leaves, of inline
content and of tables.  A table is the only block about whose children there is more to say than what each of them is.
So whoever follows a property through the rules has to look at the rule for tables alone.

* `BlockHereditary` — a property that the rules hand on;
* `readBlock_has` — every rule does;
* `readBlocks_has` — the blocks of a list of lines have the property.
-/

namespace ComponentMarkup.Markup

open ComponentMarkup.Text ComponentMarkup.Tree

variable {P : Node → Prop} {line : Span} {later : List Span} {lo hi : Nat} {kind : MarkupKind} {nodes : List Node}

/-! ## What rules hand on -/

/-- A property that the nodes made by the rules for blocks have, if inline content, the blocks inside of blocks and
tables have it. -/
structure BlockHereditary (env : BlockEnv) (P : Node → Prop) : Prop where
  leaf {kind : MarkupKind} {a b : Nat} (plain : kind.isTabular = false) : P (leafOf env.source kind a b)
  branch {kind : MarkupKind} {nodes : List Node} (plain : kind.isTabular = false) (parts : Each P nodes) :
    P (.markup kind nodes)
  inline (segments : List Span) (mode : Mode) : Each P (env.inline segments mode).value
  nested {lo hi : Nat} {lines : List Span} (lines_in : Lines lo hi lines) (within : hi ≤ env.source.size) :
    Each P (env.nested lines).value
  table {lo hi : Nat} {line : Span} {later : List Span} {result : Limited (Node × List Span)}
    (lines_in : Lines lo hi (line :: later)) (within : hi ≤ env.source.size)
    (read : tableBlock env line later = some result) : P result.value.1

/-- Filling gaps adds leaves alone. -/
theorem fill_has {src : Source} (hspace : ∀ a b, P (leafOf src .space a b))
    (hmark : ∀ a b, P (leafOf src .quoteMarker a b)) (cursor stop : Nat) (h : Each P nodes) :
    Each P (fill src cursor stop nodes) := by
  have hblank : ∀ a b, Each P (if a < b then [leafOf src .space a b] else []) := fun a b =>
    .optional (.single (hspace a b))
  have hleaves : ∀ cs start place, Each P (gapLeaves src start place cs) := by
    intro cs
    induction cs with
    | nil => exact fun start place => hblank start place
    | cons c cs ih =>
        intro start place
        unfold gapLeaves
        split
        · exact (hblank start place).append ((ih _ _).cons (hmark _ _))
        · exact ih _ _
  have hgap : ∀ a b, Each P (gap src a b) := fun a b => .optional (hleaves _ a a)
  induction nodes generalizing cursor with
  | nil => exact hgap cursor stop
  | cons n nodes ih => exact (hgap cursor n.start).append ((ih _ h.tail).cons (h n List.mem_cons_self))

namespace BlockHereditary

variable {env : BlockEnv} (hP : BlockHereditary env P)

include hP

/-- A branch with its gaps filled. -/
theorem filled (plain : kind.isTabular = false) (start stop : Nat) (h : Each P nodes) :
    P (filled env.source kind start stop nodes) :=
  hP.branch plain (fill_has (fun _ _ => hP.leaf rfl) (fun _ _ => hP.leaf rfl) start stop h)

/-- A leaf on each of several lines. -/
theorem leaves (plain : kind.isTabular = false) (lines : List Span) (first last : Span → Nat) :
    Each P (lines.map fun l => leafOf env.source kind (first l) (last l)) := by
  intro n hn
  obtain ⟨l, _, rfl⟩ := List.mem_map.mp hn
  exact hP.leaf plain

theorem bodyLeaf (plain : kind.isTabular = false) (body : List Span) : Each P (bodyLeaf env.source kind body) := by
  unfold Markup.bodyLeaf
  split
  · exact .single (hP.leaf plain)
  · exact .nil

theorem bracketed {left inside right : MarkupKind} {s : Span} (hkind : kind.isTabular = false)
    (hleft : left.isTabular = false) (hinside : inside.isTabular = false) (hright : right.isTabular = false) :
    P (Head.bracketed env.source kind left inside right s) :=
  hP.branch hkind (((Each.optional (.single (hP.leaf hinside))).append (.single (hP.leaf hright))).cons (hP.leaf hleft))

theorem head (head : Head) : Each P (head.nodes env.source) := by
  refine Each.append (Each.cons (hP.leaf rfl) ?_) ?_
  · split
    · exact .single (hP.leaf rfl)
    · exact .single (hP.bracketed rfl rfl rfl rfl)
    · exact .nil
  · split
    · exact .single (hP.bracketed rfl rfl rfl rfl)
    · exact .nil

theorem verbatim (opening closing : Nat) : P (verbatimNode env.source opening closing) :=
  hP.branch rfl (((Each.optional (.single (hP.leaf rfl))).append (.single (hP.leaf rfl))).cons (hP.leaf rfl))

end BlockHereditary

/-! ## Rules -/

section Rules

variable {env : BlockEnv} {result : Limited (Node × List Span)} (hP : BlockHereditary env P)

include hP

theorem commentBlock_has (h : commentBlock env line later = some result) : P result.value.1 := by
  unfold commentBlock at h
  dsimp only at h
  split at h
  · obtain rfl := Option.some.inj h
    exact hP.filled rfl _ _ (hP.leaves rfl _ _ _)
  · exact absurd h (by simp)

theorem scriptBlock_has (h : scriptBlock env line later = some result) : P result.value.1 := by
  unfold scriptBlock at h
  dsimp only at h
  split at h
  · exact absurd h (by simp)
  split at h
  · obtain rfl := Option.some.inj h
    exact hP.filled rfl _ _ (((hP.bodyLeaf rfl _).cons (hP.leaf rfl)).append (hP.leaves rfl _ _ _))
  · obtain rfl := Option.some.inj h
    exact hP.filled rfl _ _ ((Each.optional (.single (hP.leaf rfl))).cons (hP.leaf rfl))

theorem attributeBlock_has (h : attributeBlock env line later = some result) : P result.value.1 := by
  obtain ⟨width, _, h⟩ := Option.bind_eq_some_iff.mp h
  dsimp only at h
  generalize contentStart env.source line = start at h
  have hhead : Each P [leafOf env.source .attributeMark start (start + 1),
      leafOf env.source .attributeKey (start + 2) (start + 2 + width),
      leafOf env.source .colon (start + 2 + width) (start + 2 + width + 1)] :=
    ((Each.single (hP.leaf rfl)).cons (hP.leaf rfl)).cons (hP.leaf rfl)
  split at h
  · obtain rfl := Option.some.inj h
    refine hP.filled rfl _ _ (hhead.append ?_)
    split
    · exact .single (hP.leaf rfl)
    · exact .nil
  · obtain rfl := Option.some.inj h
    exact hP.filled rfl _ _ (hhead.append (.single (hP.leaf rfl)))

theorem codeBlock_has (h : codeBlock env line later = some result) : P result.value.1 := by
  obtain ⟨⟨mark, width⟩, _, h⟩ := Option.bind_eq_some_iff.mp h
  obtain rfl := Option.some.inj h
  refine hP.filled rfl _ _ ?_
  exact (((Each.optional (.single (hP.leaf rfl))).cons (hP.leaf rfl)).append (hP.bodyLeaf rfl _)).append
    (hP.leaves rfl _ _ _)

theorem mathBlock_has (h : mathBlock env line later = some result) : P result.value.1 := by
  unfold mathBlock at h
  dsimp only at h
  split at h
  · exact absurd h (by simp)
  obtain rfl := Option.some.inj h
  have hread : ∀ ns fences, Each P ns → Each P fences → P (enclosing env.source .mathBlock
      (contentStart env.source line) (leafOf env.source .mathDelim (contentStart env.source line)
        (contentStart env.source line + 2) ::
          (if ns.isEmpty then [] else [Node.markup .mathContent ns]) ++ fences)) := by
    intro ns fences hns hfences
    refine hP.filled rfl _ _ ((Each.cons (hP.leaf rfl) ?_).append hfences)
    split
    · exact .nil
    · exact .single (hP.branch rfl hns)
  split
  · exact hread [] _ .nil (hP.leaves rfl _ _ _)
  · exact hread _ _ (hP.inline _ _) (hP.leaves rfl _ _ _)

theorem headingBlock_has (h : headingBlock env line later = some result) : P result.value.1 := by
  obtain ⟨level, _, h⟩ := Option.bind_eq_some_iff.mp h
  obtain rfl := Option.some.inj h
  have hread : ∀ ns, Each P ns → P (filled env.source .heading (contentStart env.source line) line.stop
      (leafOf env.source .headingMarker (contentStart env.source line) (contentStart env.source line + level) ::
        ns)) :=
    fun ns hns => hP.filled rfl _ _ (hns.cons (hP.leaf rfl))
  split
  · exact hread _ (hP.inline _ _)
  · exact hread [] .nil

theorem componentLine_has (start stop : Nat) : Each P (componentLine env start stop).value := by
  unfold componentLine
  dsimp only
  split
  · exact .single (hP.branch rfl (hP.inline _ _))
  · exact .nil

variable (hlines : Lines lo hi (line :: later)) (hhi : hi ≤ env.source.size)

include hlines hhi

theorem componentBody_has : Each P (componentBody env line later).value.1 := by
  unfold componentBody
  dsimp only
  rcases htaken : takeIndented env.source (indentOf env.source line + bodyIndent) later with ⟨taken, rest⟩
  dsimp only
  split
  · exact .nil
  · obtain ⟨rfl, _⟩ := takeDeeper_spec htaken
    obtain ⟨hbody, hrest⟩ := hlines.2.2.split
    have hbound := Nat.le_trans hrest.le hhi
    have hstripped := hbody.map fun l hl =>
      strip_bounds (indentOf env.source line + bodyIndent) (hbody.mem hl).2.1
        (Nat.le_trans (hbody.mem hl).2.2 hbound)
    rw [value_bind]
    split
    · exact .nil
    · exact .single (hP.filled rfl _ _ (hP.nested hstripped hbound))

theorem componentBlock_has (h : componentBlock env line later = some result) : P result.value.1 := by
  unfold componentBlock at h
  dsimp only at h
  split at h
  · exact absurd h (by simp)
  obtain ⟨⟨head, form⟩, _, h⟩ := Option.bind_eq_some_iff.mp h
  have hhead : Each P (head.nodes env.source) := hP.head head
  dsimp only at h
  split at h
  · obtain ⟨rest, _, h⟩ := Option.bind_eq_some_iff.mp h
    obtain rfl := Option.some.inj h
    exact hP.filled rfl _ _ (hhead.append (.single (hP.verbatim _ _)))
  · obtain ⟨rest, _, h⟩ := Option.bind_eq_some_iff.mp h
    obtain rfl := Option.some.inj h
    exact hP.filled rfl _ _ (hhead.append
      (((Each.optional (.single (hP.leaf rfl))).cons (hP.leaf rfl)).append (.single (hP.leaf rfl))))
  · obtain rfl := Option.some.inj h
    exact hP.filled rfl _ _ (hhead.append
      (((componentLine_has hP _ _).cons (hP.leaf rfl)).append (componentBody_has hP hlines hhi)))
  · obtain rfl := Option.some.inj h
    exact hP.filled rfl _ _ (hhead.append .nil)

theorem quoteBlock_has (h : quoteBlock env line later = some result) : P result.value.1 := by
  unfold quoteBlock at h
  dsimp only at h
  split at h
  · exact absurd h (by simp)
  rename_i hquoted
  rw [Bool.not_eq_true', Bool.not_eq_false] at hquoted
  obtain rfl := Option.some.inj h
  simp only [List.takeWhile_cons, hquoted, if_true]
  obtain ⟨hbody, hrest⟩ := hlines.2.2.takeWhile fun l => (unindented env.source l).head? == some '>'
  have hbound := Nat.le_trans hrest.le hhi
  refine hP.filled rfl _ _ (hP.nested (unquoted_lines hbody hbound (eq_of_beq hquoted) fun l hl => ?_) hbound)
  exact eq_of_beq (List.mem_takeWhile_imp (p := fun l => (unindented env.source l).head? == some '>') hl)

theorem listItem_has (marker : ListMarker) : P (listItem env line marker later).value.1 := by
  unfold listItem
  dsimp only
  rw [value_bind]
  refine hP.filled rfl _ _ (((Each.optional (.single (hP.leaf rfl))).cons (hP.leaf rfl)).append ?_)
  obtain ⟨htaken, hrest⟩ := itemLines_lines (indentOf env.source line + marker.width +
    max _ 1) true hlines.2.2 hhi
  refine hP.nested ⟨Nat.le_refl _, ?_, htaken⟩ (Nat.le_trans hrest.le hhi)
  have hcapped : ∀ (task : Bool) (a : Nat), a ≤ line.stop →
      (if task then min (a + 4) line.stop else a) ≤ line.stop := by
    intro task a ha
    split
    · exact Nat.min_le_right _ _
    · exact ha
  exact hcapped _ _ (Nat.min_le_right _ _)

omit hlines in
/-- The items of a list have the property; each reads its lines behind those of the one before it. -/
theorem listItems_has (hsound : env.Sound) (indent : Nat) (first : ListMarker) (fuel : Nat) {marker : ListMarker}
    (hlines : Lines lo hi (line :: later))
    (hmarker : ListMarker.read? (unindented env.source line) = some marker) :
    Each P (listItems env indent first fuel line marker later).value.1 := by
  induction fuel generalizing lo line later marker with
  | zero => exact .nil
  | succ fuel ih =>
      have hitem : P (listItem env line marker later).value.1 := listItem_has hP hlines hhi marker
      have hread := listItem_read hsound hlines hhi hmarker
      unfold listItems
      dsimp only
      rw [value_bind]
      generalize (listItem env line marker later).value = result at hitem hread ⊢
      obtain ⟨item, rest⟩ := result
      have hone : Each P [item] := .single hitem
      dsimp only
      cases hdrop : rest.dropWhile (isBlankLine env.source) with
      | nil => exact hone
      | cons next lines =>
          obtain ⟨hskipped, hleft⟩ := Lines.takeWhile hread.rest (isBlankLine env.source)
          rw [hdrop] at hleft
          have hnext := hleft.mono hskipped.le (Nat.le_refl hi)
          dsimp only
          cases hother : ListMarker.read? (unindented env.source next) with
          | none => exact hone
          | some marker' =>
              dsimp only
              split
              · exact (ih hnext hother).cons hitem
              · exact hone

theorem listBlock_has (hsound : env.Sound) (h : listBlock env line later = some result) : P result.value.1 := by
  obtain ⟨marker, hmarker, h⟩ := Option.bind_eq_some_iff.mp h
  obtain rfl := Option.some.inj h
  have hkind : marker.listKind.isTabular = false := by
    unfold ListMarker.listKind
    split <;> rfl
  exact hP.filled hkind _ _ (listItems_has hP hhi hsound (indentOf env.source line) marker (later.length + 1) hlines
    hmarker)

/-- **Every block has the property.** -/
theorem readBlock_has (hsound : env.Sound) : P (readBlock env line later).value.1 := by
  unfold readBlock
  cases hfound : blockRules.findSome? fun rule => rule env line later with
  | none => exact hP.branch rfl (hP.inline _ _)
  | some result =>
      obtain ⟨rule, hrule, h⟩ := List.exists_of_findSome?_eq_some hfound
      simp only [blockRules, List.mem_cons, List.not_mem_nil, or_false] at hrule
      rcases hrule with rfl | rfl | rfl | rfl | rfl | rfl | rfl | rfl | rfl | rfl
      · exact commentBlock_has hP h
      · exact scriptBlock_has hP h
      · exact attributeBlock_has hP h
      · exact componentBlock_has hP hlines hhi h
      · exact mathBlock_has hP h
      · exact codeBlock_has hP h
      · exact headingBlock_has hP h
      · exact quoteBlock_has hP hlines hhi h
      · exact listBlock_has hP hlines hhi hsound h
      · exact hP.table hlines hhi h

omit hlines in
/-- **The blocks of a list of lines have the property.** -/
theorem readBlocks_has (hsound : env.Sound) (fuel : Nat) {lines : List Span} (hlines : Lines lo hi lines) :
    Each P (readBlocks env fuel lines).value := by
  induction fuel generalizing lo lines with
  | zero => exact .nil
  | succ fuel ih =>
      cases lines with
      | nil => exact .nil
      | cons line later =>
          unfold readBlocks
          split
          · exact ih hlines.2.2
          · rename_i hsome
            have hread := readBlock_read hsound hlines hhi (Bool.eq_false_iff.mpr hsome)
            exact (ih hread.rest).cons (readBlock_has hP hlines hhi hsound)

end Rules

end ComponentMarkup.Markup
