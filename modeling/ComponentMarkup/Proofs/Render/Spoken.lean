import ComponentMarkup.Proofs.Document.ComposedTrees
import ComponentMarkup.Proofs.Program.Strings
import ComponentMarkup.Render.Markup

/-!
# What a document says

What a node says is made of its leaves, in the order of the text: text without the backslashes in front of introducers,
escaped characters, dashes, code and so on.  Scripts, comments and the labels of images say nothing, and neither do the
verbatim bodies of interpolations, which are not rendered.  A name that is computed by script may say anything.

* `spoken` — what a node says, with the places in which script may say something;
* `spoken_transparent`, `spoken_reference`, `spoken_interpolation`, … — the same by kinds of nodes;
* `Fills` — strings that agree with that;
* `Fills.sift` — children that say nothing may be passed over;
* `quiet_spoken`, `mute_spoken` — quiet nodes say nothing.
-/

namespace ComponentMarkup.Render

open ComponentMarkup.Text ComponentMarkup.Tree ComponentMarkup.Document ComponentMarkup.Program ComponentMarkup.Markup

/-! ## What nodes say -/

/-- What the text of a leaf stands for. -/
def leafProse (kind : Kind) (text : String) : List String :=
  match kind with
  | .markup .text => literalProse (String.ofList (unescaped text.toList))
  | .markup .escape => literalProse (String.ofList (text.toList.drop 1))
  | .markup .special => ["\u2014"]
  | .markup .newline => ["\n"]
  | .markup .codeText | .markup .verbatimText => literalProse text
  | _ => []

/-- The name of the target that a reference shows. -/
def namedProse (n : Node) : List String :=
  match commandName n with
  | .ident name => literalProse name
  | _ => []

mutual

/-- What a node says.  There is nothing in the place of a name that script computes. -/
def spoken : Node → List (Option String)
  | .leaf kind text _ => (leafProse kind text).map some
  | .inner (.markup .image) _ _ _ _ _ => []
  | .inner (.markup .dynamicName) _ _ _ _ _ => [none]
  | .inner (.markup .autolink) span host count faulty children =>
    (literalProse (childText (.inner (.markup .autolink) span host count faulty children) .url)).map some
  | .inner (.markup .reference) span host count faulty children =>
    (namedProse (.inner (.markup .reference) span host count faulty children)).map some ++ spokenOf .reference children
  | .inner (.markup kind) _ _ _ _ children => spokenOf kind children
  | _ => []

/-- What the children of a node say, given its kind. -/
def spokenOf (kind : MarkupKind) : List Node → List (Option String)
  | [] => []
  | n :: ns => (if kind == .interpolation && n.isMarkup .verbatim then [] else spoken n) ++ spokenOf kind ns

end

/-- What a child says in a node of a kind. -/
def spokenIn (kind : MarkupKind) (n : Node) : List (Option String) :=
  if kind == .interpolation && n.isMarkup .verbatim then [] else spoken n

theorem spokenOf_eq (kind : MarkupKind) (ns : List Node) : spokenOf kind ns = ns.flatMap (spokenIn kind) := by
  induction ns with
  | nil => rfl
  | cons n ns ih => rw [spokenOf, ih, List.flatMap_cons, spokenIn]

/-- A child says what it says anywhere, unless it is the verbatim body of an interpolation. -/
theorem spokenIn_eq {kind : MarkupKind} {n : Node} (h : kind ≠ .interpolation ∨ n.kind ≠ .markup .verbatim) :
    spokenIn kind n = spoken n := by
  unfold spokenIn
  rcases h with hkind | hverbatim
  · rw [beq_eq_false_iff_ne.mpr hkind]
    rfl
  · rw [Node.isMarkup, beq_eq_false_iff_ne.mpr hverbatim, Bool.and_false, if_neg Bool.false_ne_true]

theorem spokenOf_plain {kind : MarkupKind} (h : kind ≠ .interpolation) (ns : List Node) :
    spokenOf kind ns = ns.flatMap spoken := by
  rw [spokenOf_eq]
  exact congrArg (ns.flatMap ·) (funext fun _ => spokenIn_eq (.inl h))

/-- Strings that agree with what is said: those that are told, and any strings in the place of script. -/
inductive Fills : List (Option String) → List String → Prop
  | nil : Fills [] []
  | told (s : String) {pattern : List (Option String)} {ss : List String} (rest : Fills pattern ss) :
      Fills (some s :: pattern) (s :: ss)
  | script (words : List String) {pattern : List (Option String)} {ss : List String} (rest : Fills pattern ss) :
      Fills (none :: pattern) (words ++ ss)

namespace Fills

variable {pattern others : List (Option String)} {ss ts : List String} {ns : List Node} {say : Node → List (Option String)}
  {word : Node → List String}

theorem all (ss : List String) : Fills (ss.map some) ss := by
  induction ss with
  | nil => exact .nil
  | cons s ss ih => exact .told s ih

theorem append (h : Fills pattern ss) (h' : Fills others ts) : Fills (pattern ++ others) (ss ++ ts) := by
  induction h with
  | nil => exact h'
  | told s _ ih => exact .told s ih
  | script words _ ih =>
      rw [List.append_assoc]
      exact .script words ih

/-- Where strings agree with two parts, they are made of two parts. -/
theorem split (h : Fills (pattern ++ others) ss) : ∃ front back, ss = front ++ back ∧ Fills pattern front ∧
    Fills others back := by
  induction pattern generalizing ss with
  | nil => exact ⟨[], ss, rfl, .nil, h⟩
  | cons s? pattern ih =>
      cases h with
      | told s rest =>
          obtain ⟨front, back, rfl, hfront, hback⟩ := ih rest
          exact ⟨s :: front, back, rfl, .told s hfront, hback⟩
      | script words rest =>
          obtain ⟨front, back, rfl, hfront, hback⟩ := ih rest
          exact ⟨words ++ front, back, (List.append_assoc words front back).symm, .script words hfront, hback⟩

theorem flatMap (h : ∀ n ∈ ns, Fills (say n) (word n)) : Fills (ns.flatMap say) (ns.flatMap word) := by
  induction ns with
  | nil => exact .nil
  | cons n ns ih =>
      rw [List.flatMap_cons, List.flatMap_cons]
      exact (h n List.mem_cons_self).append (ih fun m hm => h m (List.mem_cons_of_mem n hm))

/-- Nodes that say nothing may be passed over. -/
theorem sift {keep : Node → Bool} (hdropped : ∀ n ∈ ns, keep n = false → Fills (say n) [])
    (h : Fills ((ns.filter keep).flatMap say) ss) : Fills (ns.flatMap say) ss := by
  induction ns generalizing ss with
  | nil => exact h
  | cons n ns ih =>
      have hrest : ∀ m ∈ ns, keep m = false → Fills (say m) [] := fun m hm => hdropped m (List.mem_cons_of_mem n hm)
      rw [List.flatMap_cons]
      by_cases hkeep : keep n = true
      · rw [List.filter_cons_of_pos hkeep, List.flatMap_cons] at h
        obtain ⟨front, back, rfl, hfront, hback⟩ := h.split
        exact hfront.append (ih hrest hback)
      · rw [List.filter_cons_of_neg hkeep] at h
        exact (hdropped n List.mem_cons_self (Bool.eq_false_iff.mpr hkeep)).append (ih hrest h)

/-- Nodes none of which says anything. -/
theorem silent (h : ∀ n ∈ ns, Fills (say n) []) : Fills (ns.flatMap say) [] := by
  induction ns with
  | nil => exact .nil
  | cons n ns ih => exact (h n List.mem_cons_self).append (ih fun m hm => h m (List.mem_cons_of_mem n hm))

/-- Where one node leaves open what it says and no other says anything, any strings agree. -/
theorem opened {n : Node} (hmem : n ∈ ns) (hopen : say n = [none]) (hothers : ∀ m ∈ ns, Fills (say m) []) :
    Fills (ns.flatMap say) ss := by
  obtain ⟨front, back, rfl⟩ := List.append_of_mem hmem
  rw [List.flatMap_append, List.flatMap_cons, hopen]
  have hfront : Fills (front.flatMap say) [] := silent fun m hm => hothers m (List.mem_append_left _ hm)
  have hback : Fills (back.flatMap say) [] :=
    silent fun m hm => hothers m (List.mem_append_right _ (List.mem_cons_of_mem n hm))
  have hall := hfront.append (Fills.script ss hback)
  rwa [List.append_nil] at hall

end Fills

/-- What a node says agrees with some strings. -/
abbrev Says (n : Node) (ss : List String) : Prop :=
  Fills (spoken n) ss

/-- What several nodes say agrees with some strings. -/
abbrev SayAll (ns : List Node) (ss : List String) : Prop :=
  Fills (ns.flatMap spoken) ss

/-! ## Branches -/

section

variable {n : Node} {ns : List Node} {ss ts : List String} {kind : MarkupKind}

theorem SayAll.cons (h : Says n ss) (h' : SayAll ns ts) : SayAll (n :: ns) (ss ++ ts) :=
  Fills.append h h'

theorem SayAll.append {others : List Node} (h : SayAll ns ss) (h' : SayAll others ts) :
    SayAll (ns ++ others) (ss ++ ts) := by
  have happend := Fills.append h h'
  rwa [← List.flatMap_append] at happend

theorem SayAll.single (h : Says n ss) : SayAll [n] ss := by
  have hnone : SayAll [] [] := .nil
  have hcons := SayAll.cons h hnone
  rwa [List.append_nil] at hcons

/-- Kinds of nodes that say what their children say. -/
def isTransparent : MarkupKind → Bool
  | .text | .escape | .special | .newline | .codeText | .verbatimText | .image | .dynamicName | .autolink | .reference
  | .interpolation => false
  | _ => true

theorem spoken_transparent (hkind : n.kind = .markup kind) (htransparent : isTransparent kind = true) :
    spoken n = n.children.flatMap spoken := by
  cases n with
  | leaf other text span =>
      obtain rfl : other = .markup kind := hkind
      cases kind
      all_goals first
        | rfl
        | exact absurd htransparent Bool.false_ne_true
  | fault => cases hkind
  | inner other span host count faulty children =>
      obtain rfl : other = .markup kind := hkind
      cases kind
      all_goals first
        | exact spokenOf_plain (by decide) children
        | exact absurd htransparent Bool.false_ne_true

theorem says_children (hkind : n.kind = .markup kind) (htransparent : isTransparent kind = true)
    (h : SayAll n.children ss) : Says n ss := by
  rw [Says, spoken_transparent hkind htransparent]
  exact h

/-- A reference shows its name and then what its children say. -/
theorem spoken_reference (hkind : n.kind = .markup .reference) :
    spoken n = (namedProse n).map some ++ n.children.flatMap (spokenIn .reference) := by
  cases n with
  | leaf other text span =>
      obtain rfl : other = .markup .reference := hkind
      rfl
  | fault => cases hkind
  | inner other span host count faulty children =>
      obtain rfl : other = .markup .reference := hkind
      rw [spoken, spokenOf_eq]
      rfl

/-- An interpolation says what its children say, but for a verbatim body. -/
theorem spoken_interpolation (hkind : n.kind = .markup .interpolation) :
    spoken n = n.children.flatMap (spokenIn .interpolation) := by
  cases n with
  | leaf other text span =>
      obtain rfl : other = .markup .interpolation := hkind
      rfl
  | fault => cases hkind
  | inner other span host count faulty children =>
      obtain rfl : other = .markup .interpolation := hkind
      exact spokenOf_eq .interpolation children

/-- The label of an image is not rendered. -/
theorem spoken_image (hkind : n.kind = .markup .image) : spoken n = [] := by
  cases n with
  | leaf other text span =>
      obtain rfl : other = .markup .image := hkind
      rfl
  | fault => cases hkind
  | inner other span host count faulty children =>
      obtain rfl : other = .markup .image := hkind
      rfl

/-- An address between marks is its own label. -/
theorem spoken_autolink (hkind : n.kind = .markup .autolink) :
    spoken n = (literalProse (childText n .url)).map some := by
  cases n with
  | leaf other text span =>
      obtain rfl : other = .markup .autolink := hkind
      rfl
  | fault => cases hkind
  | inner other span host count faulty children =>
      obtain rfl : other = .markup .autolink := hkind
      rfl

/-! ## Quiet nodes -/

/-- Nodes of scripts say nothing. -/
theorem foreign_spoken (hkind : n.kind.isForeign = true) : Says n [] := by
  cases n with
  | leaf kind text span =>
      cases kind with
      | markup => exact absurd hkind Bool.false_ne_true
      | script => exact .nil
      | fault => exact .nil
  | fault => exact .nil
  | inner kind span host count faulty children =>
      cases kind with
      | markup => exact absurd hkind Bool.false_ne_true
      | script => exact .nil
      | fault => exact .nil

/-- The children of a quiet node are quiet, or nodes of scripts. -/
theorem quiet_children {kinds : List Kind} (hquiet : Kind.isQuiet (.markup kind) = true) (h : kind.Arranges kinds) :
    ∀ k ∈ kinds, k.isQuiet = true ∨ k.isForeign = true := by
  have hmute : voiced kinds = [] → ∀ k ∈ kinds, k.isQuiet = true ∨ k.isForeign = true := by
    intro hnone k hk
    have hkept := List.filter_eq_nil_iff.mp hnone k hk
    exact .inl (by simpa using hkept)
  cases kind
  all_goals first
    | exact absurd hquiet Bool.false_ne_true
    | exact absurd h id
    | exact hmute h
    | exact fun k hk => .inr (h k hk)

mutual

/-- **Quiet nodes say nothing.** -/
theorem quiet_spoken : ∀ n : Node, n.Throughout Node.Settled → n.kind.isQuiet = true → Says n []
  | .leaf kind text span, _, hquiet => by
      cases kind with
      | script => exact .nil
      | fault => exact .nil
      | markup kind =>
          cases kind
          all_goals first
            | exact .nil
            | exact absurd hquiet Bool.false_ne_true
  | .fault message hints text span, _, _ => .nil
  | .inner kind span host count faulty children, h, hquiet => by
      cases kind with
      | script => exact .nil
      | fault => exact .nil
      | markup kind =>
          by_cases hname : kind = .dynamicName
          · rw [hname]
            exact .script [] .nil
          · have htransparent : isTransparent kind = true := by
              cases kind
              all_goals first
                | rfl
                | exact absurd hquiet Bool.false_ne_true
                | exact absurd rfl hname
            have hkinds := quiet_children hquiet h.here.arranged
            have hchildren := quiet_spokenAll children (fun m hm => h.child hm) fun m hm => hkinds _ (List.mem_map_of_mem hm)
            exact says_children rfl htransparent (.silent hchildren)

theorem quiet_spokenAll : ∀ ns : List Node, (∀ n ∈ ns, n.Throughout Node.Settled) →
    (∀ n ∈ ns, n.kind.isQuiet = true ∨ n.kind.isForeign = true) → ∀ n ∈ ns, Says n []
  | [], _, _, _, hm => absurd hm List.not_mem_nil
  | n :: ns, h, hkinds, m, hm => by
      have hfirst : Says n [] := by
        rcases hkinds n List.mem_cons_self with hquiet | hforeign
        · exact quiet_spoken n (h n List.mem_cons_self) hquiet
        · exact foreign_spoken hforeign
      have hothers := quiet_spokenAll ns (fun k hk => h k (List.mem_cons_of_mem n hk))
        fun k hk => hkinds k (List.mem_cons_of_mem n hk)
      rcases List.mem_cons.mp hm with rfl | hm
      · exact hfirst
      · exact hothers m hm

end

/-- Where a kind has quiet children only, they say nothing. -/
theorem children_silent (h : n.Throughout Node.Settled) (hkind : n.kind = .markup kind)
    (hnone : ∀ kinds, kind.Arranges kinds → voiced kinds = []) : ∀ m ∈ n.children, Says m [] := by
  intro m hm
  have hnever : ∀ kinds, kind.Arranges kinds → ∀ k ∈ voiced kinds, False := by
    intro kinds harranges k hk
    rw [hnone kinds harranges] at hk
    exact absurd hk List.not_mem_nil
  exact quiet_spoken m (h.child hm) ((h.here.arranged.each hkind hnever m hm).resolve_right id)

/-- Kinds of blocks that say nothing. -/
def isMute : MarkupKind → Bool
  | .script | .attributeLine | .commentBlock => true
  | _ => false

/-- Scripts, attributes and comments say nothing. -/
theorem mute_spoken (h : n.Throughout Node.Settled) (hkind : n.kind = .markup kind) (hmute : isMute kind = true) :
    Says n [] := by
  have htransparent : isTransparent kind = true := by
    cases kind
    all_goals first
      | rfl
      | exact absurd hmute Bool.false_ne_true
  have hnone : ∀ kinds, kind.Arranges kinds → voiced kinds = [] := by
    intro kinds harranges
    cases kind
    all_goals first
      | exact harranges
      | exact absurd hmute Bool.false_ne_true
  exact says_children hkind htransparent (.silent (children_silent h hkind hnone))

/-! ## Loud nodes -/

/-- The nodes that are not quiet. -/
def loud (ns : List Node) : List Node :=
  ns.filter fun n => !n.kind.isQuiet

theorem kinds_loud (ns : List Node) : (loud ns).map Node.kind = voiced (ns.map Node.kind) := by
  rw [voiced, List.filter_map]
  rfl

/-- What nodes say is said by those that are not quiet. -/
theorem says_loud (hns : ∀ n ∈ ns, n.Throughout Node.Settled) (h : SayAll (loud ns) ss) : SayAll ns ss :=
  h.sift fun n hn hquiet => quiet_spoken n (hns n hn) (by simpa using hquiet)

/-- Children of a kind that is not quiet stand among those that are not. -/
theorem filter_loud (hkind : Kind.isQuiet (.markup kind) = false) (ns : List Node) :
    ns.filter (·.isMarkup kind) = (loud ns).filter (·.isMarkup kind) := by
  unfold loud
  rw [List.filter_filter]
  refine congrArg (fun p => ns.filter p) (funext fun child => ?_)
  by_cases hchild : child.kind = .markup kind
  · rw [Node.isMarkup, hchild, hkind, beq_self_eq_true]
    rfl
  · rw [Node.isMarkup, beq_eq_false_iff_ne.mpr hchild, Bool.false_and]

theorem child?_loud (hkind : Kind.isQuiet (.markup kind) = false) :
    n.child? kind = (loud n.children).find? (·.isMarkup kind) := by
  have hfilter := congrArg List.head? (filter_loud hkind n.children)
  rwa [List.head?_filter, List.head?_filter] at hfilter

end

end ComponentMarkup.Render
