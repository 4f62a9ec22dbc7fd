import ComponentMarkup.Proofs.Markup.Heredity

/-!
# Slots in inline content

Some nodes of a document are slots: their text belongs to another grammar, and its tree will take their place.
The grammar of documents never makes a node that is all slot.  Beside a slot, in the same branch, stands a
delimiter that covers some text, so a slot is always smaller than the region it was read from.

* `Guarded` — a tree that is no slot itself and in which each slot has such a delimiter beside it;
* `guarded_hereditary` — the rules for inline content hand that on;
* `inlineNodes_guarded` — inline content is guarded, however deep its regions are inside each other.
-/

namespace ComponentMarkup.Markup

open ComponentMarkup.Text ComponentMarkup.Tree ComponentMarkup.Document

variable {src : Source} {kind : MarkupKind} {nodes others : List Node} {a b : Nat}

/-- A leaf whose text belongs to another grammar. -/
def IsSlot : Node → Prop
  | .leaf kind _ _ => choice? kind ≠ none
  | _ => False

/-- A tree of the grammar of documents, its slots guarded: beside each stands a node that is no slot and covers
some text.  A branch knows whether it holds a fault.  The braces of a body guard nothing, since a body may lose them again. -/
inductive Guarded : Node → Prop
  | leaf {kind : Kind} {text : String} {span : Span} (plain : choice? kind = none) : Guarded (.leaf kind text span)
  | fault {message : String} {hints : List String} {text : String} {span : Span} :
      Guarded (.fault message hints text span)
  | branch {kind : Kind} {span : Span} {count : Nat} {faulty : Bool} {children : List Node}
      (plain : choice? kind = none) (flag : faulty = children.any Node.faulty)
      (parts : ∀ child ∈ children, choice? child.kind = none → Guarded child)
      (slots : ∀ child ∈ children, choice? child.kind ≠ none → IsSlot child ∧ kind ≠ .markup .contentBlock ∧
        ∃ other ∈ children, choice? other.kind = none ∧ other.start < other.stop) :
      Guarded (.inner kind span none count faulty children)

/-- Trees that are guarded. -/
abbrev AllGuarded (nodes : List Node) : Prop :=
  Each Guarded nodes

/-- A guarded tree is no slot. -/
theorem Guarded.plain {n : Node} (h : Guarded n) : choice? n.kind = none := by
  cases h with
  | leaf plain => exact plain
  | fault => rfl
  | branch plain _ _ _ => exact plain

/-- Trees that are guarded, or slots. -/
def SlotsOrGuarded (nodes : List Node) : Prop :=
  ∀ n ∈ nodes, Guarded n ∨ IsSlot n

theorem IsSlot.choice {n : Node} (h : IsSlot n) : choice? n.kind ≠ none := by
  cases n with
  | leaf => exact h
  | inner => exact h.elim
  | fault => exact h.elim

theorem AllGuarded.weaken (h : AllGuarded nodes) : SlotsOrGuarded nodes :=
  fun n hn => .inl (h n hn)

theorem SlotsOrGuarded.append (h : SlotsOrGuarded nodes) (h' : SlotsOrGuarded others) :
    SlotsOrGuarded (nodes ++ others) := by
  intro n hn
  rcases List.mem_append.mp hn with hn | hn
  · exact h n hn
  · exact h' n hn

theorem SlotsOrGuarded.single {n : Node} (hn : Guarded n) : SlotsOrGuarded [n] :=
  AllGuarded.weaken (.single hn)

/-- A leaf that is no slot, in front of others. -/
theorem SlotsOrGuarded.leaf (hkind : choice? (.markup kind) = none) (h : SlotsOrGuarded nodes) :
    SlotsOrGuarded (leafOf src kind a b :: nodes) :=
  (SlotsOrGuarded.single (.leaf hkind)).append h

theorem SlotsOrGuarded.slot (h : choice? (.markup kind) ≠ none) : SlotsOrGuarded [leafOf src kind a b] := by
  intro n hn
  obtain rfl := List.mem_singleton.mp hn
  exact .inr h

/-! ## Building nodes -/

theorem Guarded.leafOf (h : choice? (.markup kind) = none) : Guarded (leafOf src kind a b) :=
  .leaf h

/-- A branch over guarded nodes. -/
theorem Guarded.markup (hkind : choice? (.markup kind) = none) (h : AllGuarded nodes) :
    Guarded (.markup kind nodes) := by
  refine .branch hkind rfl (fun child hchild _ => h child hchild) ?_
  intro child hchild hslot
  exact absurd (h child hchild).plain hslot

/-- A branch over guarded nodes and slots, one of the former being there to guard the latter. -/
theorem Guarded.withSlots (hkind : choice? (.markup kind) = none) (hblock : kind ≠ .contentBlock)
    (h : SlotsOrGuarded nodes) {guard : Node} (hmem : guard ∈ nodes) (hplain : choice? guard.kind = none)
    (hlt : guard.start < guard.stop) : Guarded (.markup kind nodes) := by
  refine .branch hkind rfl ?_ ?_
  · intro child hchild hnone
    rcases h child hchild with hguarded | hslot
    · exact hguarded
    · exact absurd hnone hslot.choice
  · intro child hchild hsome
    rcases h child hchild with hguarded | hslot
    · exact absurd hguarded.plain hsome
    · exact ⟨hslot, fun heq => hblock (Kind.markup.inj heq), guard, hmem, hplain, hlt⟩

/-- Brackets around a slot guard it. -/
theorem bracketed_guarded {left inside right : MarkupKind} {s : Span} (hkind : choice? (.markup kind) = none)
    (hblock : kind ≠ .contentBlock) (hleft : choice? (.markup left) = none)
    (hinside : choice? (.markup inside) ≠ none) (hright : choice? (.markup right) = none) :
    Guarded (Head.bracketed src kind left inside right s) := by
  refine .withSlots hkind hblock (.append (.leaf hleft ?_) (.single (.leafOf hright))) List.mem_cons_self hleft
    (Nat.lt_succ_self s.start)
  split
  · exact .slot hinside
  · exact AllGuarded.weaken .nil

/-- The nodes of a head are guarded: its expressions stand in brackets. -/
theorem Head.nodes_guarded (head : Head) : AllGuarded (head.nodes src) := by
  refine Each.append (Each.cons (.leafOf rfl) ?_) ?_
  · split
    · exact .single (.leafOf rfl)
    · exact .single (bracketed_guarded rfl (by decide) rfl (by decide) rfl)
    · exact .nil
  · split
    · exact .single (bracketed_guarded rfl (by decide) rfl (by decide) rfl)
    · exact .nil

theorem verbatimNode_guarded (opening closing : Nat) : Guarded (verbatimNode src opening closing) :=
  .markup rfl (((Each.optional (.single (.leafOf rfl))).append (.single (.leafOf rfl))).cons (.leafOf rfl))

/-! ## Inline content -/

/-- A kind about which there is nothing to say is no slot. -/
theorem choice?_plain (h : kind.isPlain = true) : choice? (.markup kind) = none := by
  simp only [MarkupKind.isPlain, Bool.and_eq_true, Option.isNone_iff_eq_none] at h
  exact h.2.1

/-- A body that loses its braces leaves guarded nodes. -/
theorem unbrace_guarded {n : Node} (hblock : n.isMarkup .contentBlock = true) (h : Guarded n) :
    AllGuarded (unbrace n) := by
  cases h with
  | leaf => exact .nil
  | fault => exact .nil
  | @branch kind span count faulty children plain _ parts slots =>
      obtain rfl : kind = .markup .contentBlock := beq_iff_eq.mp hblock
      have hall : AllGuarded children := by
        intro child hchild
        by_cases hslot : choice? child.kind = none
        · exact parts child hchild hslot
        · exact absurd rfl (slots child hchild hslot).2.1
      intro m hm
      obtain ⟨child, hchild, rfl⟩ := List.mem_map.mp hm
      split
      · -- a brace; only its kind is another one
        cases hall child hchild with
        | leaf => exact .leaf rfl
        | fault => exact .fault
        | branch _ flag parts slots =>
            refine .branch rfl flag parts fun c hc hslot => ?_
            obtain ⟨hleaf, _, hguard⟩ := slots c hc hslot
            exact ⟨hleaf, by decide, hguard⟩
      · exact hall child hchild

/-- **The rules for inline content hand on that nodes are guarded.** -/
theorem guarded_hereditary {env : Env} (hnested : ∀ inner mode, AllGuarded (env.nested inner mode).value) :
    Hereditary env (fun _ => True) Guarded where
  leaf plain := .leafOf (choice?_plain plain)
  text := .leaf rfl
  space _ := .leafOf rfl
  branch plain parts := .markup (choice?_plain plain) parts
  head := Head.nodes_guarded
  verbatim := verbatimNode_guarded
  body parts := .markup rfl ((parts.append (.single (.leafOf rfl))).cons (.leafOf rfl))
  unbraced := unbrace_guarded
  line _ := .markup rfl (hnested _ _)
  formula _ := .markup rfl (hnested _ _)

theorem readInline_guarded {nested : Span → Mode → Limited (List Node)}
    (hnested : ∀ inner mode, AllGuarded (nested inner mode).value) (segments : List Span) (mode : Mode) :
    AllGuarded (readInline src nested segments mode).value := by
  unfold readInline
  dsimp only
  generalize henv : Env.mk src mode ((segments.getLast?.map Span.stop).getD 0) _ nested = env
  obtain rfl : src = env.source := by rw [← henv]
  have hP : Hereditary env (fun _ => True) Guarded := guarded_hereditary (by rw [← henv]; exact hnested)
  have hread := readRegion_has (I := fun _ => True) hP (.start segments) trivial (fun _ _ _ _ _ => trivial)
    (fun _ _ _ _ _ _ => .leafOf rfl) fun _ _ _ _ _ _ _ _ _ => trivial
  refine hP.settle (closeCommands_has (I := fun _ => True) hP (hread _) trivial (fun _ _ => trivial) ?_ _)
  exact fun _ _ _ _ _ _ _ habove => .markup rfl (habove.cons (.leafOf rfl))

/-- **Inline content is guarded**, however deep regions may be inside each other. -/
theorem inlineNodes_guarded (src : Source) (levels : Nat) (segments : List Span) (mode : Mode) :
    AllGuarded (inlineNodes src levels segments mode).value := by
  induction levels generalizing segments mode with
  | zero => exact readInline_guarded (fun _ _ => .single (.leafOf rfl)) segments mode
  | succ levels ih => exact readInline_guarded (fun inner mode => ih [inner] mode) segments mode

end ComponentMarkup.Markup
