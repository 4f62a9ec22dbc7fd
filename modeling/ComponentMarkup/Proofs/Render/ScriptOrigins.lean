import ComponentMarkup.Proofs.Render.Origins

/-!
# Where rendered scripts stem from

A script is rendered from its tips, which are commands, white space, comments and tokens.  If the commands are
rendered soundly and the lexer reads the tips as they are written, then statements, expressions and attribute lists
are sound, and so are the sequences that they are parts of.

* `TipOf`, `SoundScripts` — tips that the lexer reads, and trees all of whose scripts have such tips;
* `copyTree_sound`, `scriptStatements_sound`, `hostedExpr_sound`, `hostedMembers_sound` — scripts are rendered soundly;
* `configurableSequence_sound`, `plainSequence_sound` — sequences are.
-/

namespace ComponentMarkup.Render

open ComponentMarkup.Text ComponentMarkup.Tree ComponentMarkup.Document ComponentMarkup.Program
open ComponentMarkup.Script

variable {root n host : Node} {render : Renderer} {code : Code} {e : Expr}

/-- A tip of a script of a tree, which the lexer reads as it is written. -/
structure TipOf (root t : Node) : Prop where
  within : Node.Within root t
  script : IsTip t
  reads : ∀ a, t.atom? = some a → ∃ rest, a.ReadsIn rest
  named : t.IsNamed

/-- A tree whose scripts have tips that the lexer reads, and none of which is just a command. -/
def SoundScripts (root : Node) : Prop :=
  ∀ host script, IsScriptOf root host → host.hostedRoot? = some script →
    script.kind ≠ .script .embed ∧ ∀ t ∈ script.tips, TipOf root t

/-- A renderer that renders the nodes of a tree soundly. -/
def SoundRenderer (root : Node) (render : Renderer) : Prop :=
  ∀ role n, Node.Within root n → (render role n).Sound root fun e? => ∀ e ∈ e?, SoundExpr root e

/-! ## Sound script -/

namespace SoundCode

theorem nil : SoundCode root [] :=
  ⟨copies_nil, fun _ he => absurd he List.not_mem_nil⟩

theorem expr (h : SoundCode root code) (he : SoundExpr root e) : SoundCode root (code ++ [.expr e]) := by
  refine ⟨copies_append h.copies (copies_expr e), fun inner hinner => ?_⟩
  rw [exprs_append, exprs_expr_cons, exprs_nil] at hinner
  rcases List.mem_append.mp hinner with hinner | hinner
  · exact h.exprs inner hinner
  · exact List.mem_singleton.mp hinner ▸ he

theorem pushToken (h : SoundCode root code) {t : String} {o : Nat} (ht : TokenIn root t o) :
    SoundCode root (code.pushToken t o) :=
  ⟨copies_pushToken h.copies ht, by rw [exprs_pushToken]; exact h.exprs⟩

theorem pushText (h : SoundCode root code) {blanks : String} (hblanks : White blanks.toList) :
    SoundCode root (code.pushText blanks) :=
  ⟨copies_pushText hblanks h.copies, by rw [exprs_pushText]; exact h.exprs⟩

theorem trimEnd (h : SoundCode root code) : SoundCode root code.trimEnd :=
  ⟨copies_trimEnd tokenText_of_tokenIn h.copies, by rw [exprs_trimEnd]; exact h.exprs⟩

theorem trim (h : SoundCode root code) : SoundCode root code.trim :=
  ⟨copies_trim tokenText_of_tokenIn h.copies, by rw [exprs_trim]; exact h.exprs⟩

theorem listed (h : SoundCode root code) : SoundCode root (Code.trim (Code.dropComma (Code.trim code))) :=
  ⟨copies_listed tokenText_of_tokenIn h.copies, by rw [exprs_trim, exprs_dropComma, exprs_trim]; exact h.exprs⟩

end SoundCode

/-! ## Inline content and commands in script -/

theorem inlineExprs_sound (hrender : SoundRenderer root render) {nodes : List Node}
    (h : ∀ n ∈ nodes, Node.Within root n) :
    (inlineExprs render nodes).Sound root fun es => ∀ e ∈ es, SoundExpr root e := by
  refine (Rendered.Sound.forAll fun n hn => hrender .inline n (h n hn)).bind fun exprs hexprs => .pure ?_
  intro e he
  obtain ⟨e?, he?, heq⟩ := List.mem_filterMap.mp he
  exact hexprs e? he? e heq

theorem inlineElems_sound (hrender : SoundRenderer root render) {nodes : List Node}
    (h : ∀ n ∈ nodes, Node.Within root n) : (inlineElems render nodes).Sound root (SoundElems root) :=
  (inlineExprs_sound hrender h).bind fun _ hes => .pure (.items hes)

/-- The sequence that a node hosts is made of nodes of the tree. -/
theorem hostedSequence?_within (h : Node.Within root n) {nodes : List Node}
    (hnodes : hostedSequence? n = some nodes) : ∀ m ∈ nodes, Node.Within root m := by
  obtain ⟨r, hroot, hview⟩ := Option.bind_eq_some_iff.mp hnodes
  split at hview
  · rename_i hsequence
    cases hview
    exact view?_within (h.hostedRoot? hroot) hsequence
  · exact absurd hview (Option.some_ne_none nodes).symm

theorem embedded_sound (hrender : SoundRenderer root render) (h : Node.Within root n) :
    (embedded render n).Sound root (SoundExpr root) := by
  unfold embedded
  split
  · exact .pure (sound_located (sound_str _) h)
  · rename_i nodes hnodes
    refine (inlineExprs_sound hrender (hostedSequence?_within h hnodes)).bind fun exprs hexprs => ?_
    split
    · exact .pure (sound_located (sound_str _) h)
    · exact .pure (hexprs _ List.mem_cons_self)
    · exact .pure (sound_located (sound_element (sound_ident _) (sound_object .nil) (.items hexprs)) h)

/-! ## Copying tokens -/

/-- The lexer reads a leaf that is not empty. -/
theorem TipOf.readsIn {k : ScriptKind} {t : String} {s : Span} (h : TipOf root (.leaf (.script k) t s))
    (ht : t.isEmpty = false) : ∃ rest, Atom.ReadsIn ⟨k, t.toList⟩ rest := by
  apply h.reads
  show (if t.isEmpty then none else some (Atom.mk k t.toList)) = _
  rw [ht]
  rfl

/-- A leaf that is no command and no trivia is a token. -/
theorem TipOf.token {k : ScriptKind} {t : String} {s : Span} (h : TipOf root (.leaf (.script k) t s))
    (hk : (Kind.script k).isTrivia = false) (ht : t.isEmpty = false) : TokenIn root t s.start := by
  obtain ⟨rest, hreads⟩ := h.readsIn ht
  exact ⟨k, s, h.within, rfl, tokenText_of_readsIn hreads hk⟩

/-- A leaf of white space is blank. -/
theorem TipOf.blank {t : String} {s : Span} (h : TipOf root (.leaf (.script .space) t s)) (ht : t.isEmpty = false) :
    White t.toList := by
  obtain ⟨rest, hreads⟩ := h.readsIn ht
  exact hreads.white rfl

theorem copyToken_sound {kind : Kind} {t : String} {s : Span} (h : TipOf root (.leaf kind t s))
    (hcode : SoundCode root code) : (copyToken kind t s.start code).Sound root (SoundCode root) := by
  obtain ⟨k, hkind, _⟩ := h.script
  obtain rfl : kind = .script k := hkind
  unfold copyToken
  split
  · exact .pure hcode
  · rename_i hempty
    have ht : t.isEmpty = false := Bool.eq_false_iff.mpr hempty
    split
    · rename_i heq
      obtain rfl := Kind.script.inj heq
      exact .pure (hcode.pushText (h.blank ht))
    · exact .pure hcode
    · exact .pure (hcode.pushText (List.forall_mem_singleton.mpr rfl))
    · rename_i heq
      obtain rfl := Kind.script.inj heq
      have htoken := h.token rfl ht
      split
      · exact (Rendered.Sound.gather (fun _ hmem => absurd hmem List.not_mem_nil)
          fun _ hmem => absurd hmem List.not_mem_nil).bind fun _ _ => .pure (hcode.pushToken htoken)
      · exact .pure (hcode.pushToken htoken)
    · rename_i hspace hline hblock _
      refine .pure (hcode.pushToken (h.token ?_ ht))
      cases k
      case space => exact absurd rfl hspace
      case lineComment => exact absurd rfl hline
      case blockComment => exact absurd rfl hblock
      all_goals rfl

mutual

/-- **Copying a script is sound**: what is copied are tokens from where they stand. -/
theorem copyTree_sound (hrender : SoundRenderer root render) : ∀ (n : Node) (code : Code),
    (∀ t ∈ n.tips, TipOf root t) → SoundCode root code →
      (copyTree render n code).Sound root (SoundCode root)
  | .fault message hints text s, code, h, _ => by
      obtain ⟨k, hk, _⟩ := (h _ (List.mem_singleton.mpr rfl)).script
      exact absurd hk (by simp [Node.kind])
  | .leaf kind text s, code, h, hcode => by
      have htip := h _ (List.mem_singleton.mpr rfl)
      unfold copyTree
      split
      · exact (embedded_sound hrender htip.within).bind fun e he => .pure (hcode.expr he)
      · exact copyToken_sound htip hcode
  | .inner kind s host count faulty children, code, h, hcode => by
      unfold copyTree
      split
      · rename_i hembed
        rw [Node.tips, if_pos hembed] at h
        exact (embedded_sound hrender (h _ (List.mem_singleton.mpr rfl)).within).bind
          fun e he => .pure (hcode.expr he)
      · rename_i hembed
        rw [Node.tips, if_neg hembed] at h
        exact copyTrees_sound hrender children code h hcode

/-- Copying several scripts is sound. -/
theorem copyTrees_sound (hrender : SoundRenderer root render) : ∀ (ns : List Node) (code : Code),
    (∀ t ∈ Node.tipsOf ns, TipOf root t) → SoundCode root code →
      (copyTrees render ns code).Sound root (SoundCode root)
  | [], _, _, hcode => .pure hcode
  | n :: ns, code, h, hcode =>
      (copyTree_sound hrender n code (fun t ht => h t (List.mem_append_left _ ht)) hcode).bind fun copied hcopied =>
        copyTrees_sound hrender ns copied (fun t ht => h t (List.mem_append_right _ ht)) hcopied

end

/-! ## Statements, expressions and attribute lists -/

theorem statement_sound (hrender : SoundRenderer root render) (h : ∀ t ∈ n.tips, TipOf root t) :
    (statement render n).Sound root fun code? => ∀ code ∈ code?, SoundCode root code := by
  refine (copyTree_sound hrender n [] h .nil).bind fun _ hcode => ?_
  have hkept := hcode.trimEnd
  dsimp only
  split
  · refine (Rendered.Sound.gather (fun other hmem => ?_) fun other hmem => ?_).bind fun _ _ => .pure fun _ hmem => ?_
    · exact List.mem_singleton.mp hmem ▸ hkept
    · unfold importNeeds at hmem
      dsimp only at hmem
      split at hmem
      all_goals exact absurd hmem List.not_mem_nil
    · exact absurd hmem (Option.not_mem_none _)
  · split
    · refine (Rendered.Sound.gather (fun _ hmem => absurd hmem List.not_mem_nil) fun other hmem => ?_).bind
        fun _ _ => .pure fun _ hmem => ?_
      · exact List.mem_singleton.mp hmem ▸ hkept
      · exact absurd hmem (Option.not_mem_none _)
    · refine .pure fun _ hmem => ?_
      exact Option.mem_some_iff.mp hmem ▸ hkept

/-- The tips of a part of a script are tips of the script. -/
theorem tips_child {script : Node} (hkind : script.kind ≠ .script .embed) (hn : n ∈ script.children) {t : Node}
    (ht : t ∈ n.tips) : t ∈ script.tips := by
  cases script with
  | leaf => exact absurd hn List.not_mem_nil
  | fault => exact absurd hn List.not_mem_nil
  | inner k s c count faulty children =>
      have hk : (k == .script .embed) = false := beq_eq_false_iff_ne.mpr hkind
      rw [Node.tips, hk, if_neg Bool.false_ne_true, Node.tipsOf_eq]
      exact List.mem_flatMap.mpr ⟨n, hn, ht⟩

theorem scriptStatements_sound (hrender : SoundRenderer root render) (hscripts : SoundScripts root)
    {body : Option Node} (h : ∀ host, body = some host → IsScriptOf root host) :
    (scriptStatements render body).Sound root fun codes => ∀ code ∈ codes, SoundCode root code := by
  unfold scriptStatements
  split
  · exact .pure fun _ hmem => absurd hmem List.not_mem_nil
  · rename_i host
    split
    · exact (Rendered.Sound.report _).bind fun _ _ => .pure fun _ hmem => absurd hmem List.not_mem_nil
    · rename_i script hroot
      obtain ⟨hkind, htips⟩ := hscripts host script (h host rfl) hroot
      refine (Rendered.Sound.forAll fun n hn => statement_sound hrender fun t ht => ?_).bind fun codes hcodes => .pure ?_
      · exact htips t (tips_child hkind (List.mem_filter.mp hn).1 ht)
      · intro code hcode
        obtain ⟨code?, hcode?, heq⟩ := List.mem_filterMap.mp hcode
        exact hcodes code? hcode? code heq

theorem hostedExpr_sound (hrender : SoundRenderer root render) (hscripts : SoundScripts root)
    (h : IsScriptOf root host) :
    (hostedExpr render host).Sound root fun e? => ∀ e ∈ e?, SoundExpr root e := by
  unfold hostedExpr
  split
  · refine .pure fun e he => ?_
    exact Option.mem_some_iff.mp he ▸ sound_located (sound_str _) h.1
  · rename_i script hroot
    refine (copyTree_sound hrender script [] (hscripts host script h hroot).2 .nil).bind fun code hcode => ?_
    have hkept := hcode.trim
    dsimp only
    generalize Code.trim code = trimmed at hkept ⊢
    split
    · exact .pure fun e he => absurd he (Option.not_mem_none e)
    · split
      · refine .pure fun e he => ?_
        exact Option.mem_some_iff.mp he ▸ hkept.exprs _ List.mem_cons_self
      · refine .pure fun e he => ?_
        exact Option.mem_some_iff.mp he ▸ sound_located (sound_code hkept) h.1

theorem hostedMembers_sound (hrender : SoundRenderer root render) (hscripts : SoundScripts root)
    (h : IsScriptOf root host) : (hostedMembers render host).Sound root (SoundMembers root) := by
  unfold hostedMembers
  split
  · exact (Rendered.Sound.report _).bind fun _ _ => .pure .nil
  · rename_i script hroot
    refine (copyTree_sound hrender script [] (hscripts host script h hroot).2 .nil).bind fun code hcode => .pure ?_
    split
    · exact .nil
    · exact .single hcode.listed

/-! ## Sequences -/

/-- A part of a sequence whose expression, statements or member are sound. -/
def Part.Sound (root : Node) : Part → Prop
  | .block e => SoundExpr root e
  | .scope statements origin => (∀ code ∈ statements, SoundCode root code) ∧ StartsIn root origin
  | .property member => SoundMember root member

/-- The elements of sound parts are sound. -/
theorem nestParts_sound {parts : List Part} (h : ∀ part ∈ parts, part.Sound root) :
    SoundElems root (nestParts parts) := by
  induction parts with
  | nil => exact .nil
  | cons part parts ih =>
      have hpart := h part List.mem_cons_self
      have hothers := ih fun other hother => h other (List.mem_cons_of_mem part hother)
      cases part with
      | block e => exact .cons hpart hothers
      | property member => exact hothers
      | scope statements origin =>
          obtain ⟨hstatements, n, hn, rfl⟩ := hpart
          exact .single (sound_located (sound_scope hstatements (sound_array hothers)) hn)

theorem partProperties_sound {parts : List Part} (h : ∀ part ∈ parts, part.Sound root) :
    SoundMembers root (partProperties parts) := by
  intro member hmember
  obtain ⟨part, hpart, heq⟩ := List.mem_filterMap.mp hmember
  have hsound := h part hpart
  cases part with
  | property other =>
      obtain rfl : other = member := Option.some.inj heq
      exact hsound
  | block e => exact absurd heq (Option.some_ne_none member).symm
  | scope statements origin => exact absurd heq (Option.some_ne_none member).symm

theorem attributeMember_sound (hrender : SoundRenderer root render) (hscripts : SoundScripts root)
    (h : Node.Within root n) (key : String) {value : Option Node}
    (hvalue : ∀ host, value = some host → IsScriptOf root host) :
    (attributeMember render n.start key value).Sound root (SoundMember root) := by
  unfold attributeMember
  split
  · exact .pure (sound_located (sound_bool true) h)
  · rename_i host
    refine (hostedExpr_sound hrender hscripts (hvalue host rfl)).bind fun e? he => .pure ?_
    cases e? with
    | none => exact sound_located (sound_bool true) h
    | some e => exact sound_located (he e rfl) h

theorem partOf_sound (hrender : SoundRenderer root render) (hscripts : SoundScripts root) (configurable : Bool)
    (h : Node.Within root n) :
    (partOf render configurable n).Sound root fun part? => ∀ part ∈ part?, part.Sound root := by
  unfold partOf
  split
  · rename_i key value hview
    unfold attributePart
    split
    · refine (attributeMember_sound hrender hscripts h key (view?_within h hview)).bind fun member hmember => .pure ?_
      intro part hpart
      exact Option.mem_some_iff.mp hpart ▸ hmember
    · exact (Rendered.Sound.report _).bind fun _ _ => .pure fun part hpart => absurd hpart (Option.not_mem_none part)
  · rename_i body hview
    refine (scriptStatements_sound hrender hscripts (view?_within h hview)).bind fun codes hcodes => .pure ?_
    intro part hpart
    split at hpart
    · exact absurd hpart (Option.not_mem_none part)
    · exact Option.mem_some_iff.mp hpart ▸ ⟨hcodes, n, h, rfl⟩
  · refine (hrender .block n h).bind fun e? he => .pure fun part hpart => ?_
    obtain ⟨e, he', rfl⟩ := Option.mem_map.mp hpart
    exact he e he'

variable {nodes : List Node}

theorem sequenceParts_sound (hrender : SoundRenderer root render) (hscripts : SoundScripts root)
    (configurable : Bool) (h : ∀ n ∈ nodes, Node.Within root n) :
    (sequenceParts render configurable nodes).Sound root fun parts => ∀ part ∈ parts, part.Sound root := by
  refine (Rendered.Sound.forAll fun n hn => partOf_sound hrender hscripts configurable (h n hn)).bind
    fun parts hparts => .pure fun part hpart => ?_
  obtain ⟨part?, hpart?, heq⟩ := List.mem_filterMap.mp hpart
  exact hparts part? hpart? part heq

theorem configurableSequence_sound (hrender : SoundRenderer root render) (hscripts : SoundScripts root)
    (h : ∀ n ∈ nodes, Node.Within root n) :
    (configurableSequence render nodes).Sound root fun x => SoundMembers root x.1 ∧ SoundExpr root x.2 :=
  (sequenceParts_sound hrender hscripts true h).bind fun _ hparts =>
    .pure ⟨partProperties_sound hparts, sound_array (nestParts_sound hparts)⟩

theorem plainSequence_sound (hrender : SoundRenderer root render) (hscripts : SoundScripts root)
    (h : ∀ n ∈ nodes, Node.Within root n) : (plainSequence render nodes).Sound root (SoundExpr root) :=
  (sequenceParts_sound hrender hscripts false h).bind fun _ hparts => .pure (sound_array (nestParts_sound hparts))

end ComponentMarkup.Render
