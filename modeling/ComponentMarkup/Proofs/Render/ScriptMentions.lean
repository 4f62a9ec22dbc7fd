import ComponentMarkup.Proofs.Render.Mentions

/-!
# Names noted of script

While a document is rendered, names are noted that the program around it has to provide.  What was rendered tells a
name if the name was noted exactly if the value mentions it, or an import or export that was gathered, and if a name
that is known as bound has an import behind it.  This holds of two parts together if it holds of each.

Copying script notes each identifier that is copied and does not stand behind a dot.  A token of another kind is no
name of a component, and white space, comments, trimming and the comma at the end of an attribute list do not matter.
So statements, expressions and attribute lists tell their names if the commands in them do.

* `Rendered.Tells` — what is gathered names what is mentioned;
* `copyTree_adds` — copied script;
* `statement_tells`, `hostedExpr_tells`, `hostedMembers_tells` — statements, expressions and attribute lists;
* `configurableSequence_tells`, `plainSequence_tells` — sequences.
-/

namespace ComponentMarkup.Render

open ComponentMarkup.Text ComponentMarkup.Tree ComponentMarkup.Document ComponentMarkup.Program
open ComponentMarkup.Script

variable {root n host : Node} {name : String} {render : Renderer} {code : Code} {nodes : List Node}

/-! ## Names that are told -/

/-- An import or an export that was gathered mentions a name. -/
def Needs.Hoists (needs : Needs) (name : String) : Prop :=
  ∃ code ∈ needs.imports ++ needs.exports, code.Mentions name

/-- An import of a tree that was gathered binds a name. -/
def Needs.Imports (needs : Needs) (root : Node) (name : String) : Prop :=
  ∃ decl render, Node.Within root decl ∧ decl.isScript .importDecl ∧
    Code.trimEnd (copyTree render decl []).value ∈ needs.imports ∧ BindsName (declTokens decl) name

theorem Needs.hoists_append {a b : Needs} : (a ++ b).Hoists name ↔ a.Hoists name ∨ b.Hoists name := by
  have himports : (a ++ b).imports = a.imports ++ b.imports := rfl
  have hexports : (a ++ b).exports = a.exports ++ b.exports := rfl
  simp only [Needs.Hoists, himports, hexports, List.mem_append, or_and_right, exists_or]
  exact or_or_or_comm

theorem Needs.Imports.append_left {a b : Needs} (h : a.Imports root name) : (a ++ b).Imports root name := by
  obtain ⟨decl, render, hdecl, hkind, hcode, hbinds⟩ := h
  exact ⟨decl, render, hdecl, hkind, List.mem_append_left _ hcode, hbinds⟩

theorem Needs.Imports.append_right {a b : Needs} (h : b.Imports root name) : (a ++ b).Imports root name := by
  obtain ⟨decl, render, hdecl, hkind, hcode, hbinds⟩ := h
  exact ⟨decl, render, hdecl, hkind, List.mem_append_right _ hcode, hbinds⟩

/-- A result of rendering whose value mentions a name if a proposition holds: the name was noted exactly if it is
mentioned or an import or export mentions it, and it is known as bound only if an import binds it. -/
structure Rendered.Tells {α : Type} (x : Rendered α) (root : Node) (name : String) (mentioned : Prop) : Prop where
  names : name ∈ x.needs.names ↔ mentioned ∨ x.needs.Hoists name
  bound : name ∈ x.needs.bound → x.needs.Imports root name

namespace Rendered.Tells

variable {α β : Type} {x : Rendered α} {f : α → Rendered β} {p q : Prop}

theorem congr (h : x.Tells root name p) (hpq : p ↔ q) : x.Tells root name q :=
  ⟨by rw [← hpq]; exact h.names, h.bound⟩

/-- Names alone are told of what mentions them. -/
theorem noted (a : α) (names : List String) : Rendered.Tells ⟨a, { names := names }⟩ root name (name ∈ names) :=
  ⟨by simp [Needs.Hoists], fun h => absurd h List.not_mem_nil⟩

theorem pure (a : α) : (Pure.pure a : Rendered α).Tells root name False :=
  (noted a []).congr (by simp)

theorem bind (h : x.Tells root name p) (hf : (f x.value).Tells root name q) : (x >>= f).Tells root name (p ∨ q) where
  names := by
    show name ∈ x.needs.names ++ (f x.value).needs.names ↔ (p ∨ q) ∨ (x.needs ++ (f x.value).needs).Hoists name
    rw [List.mem_append, h.names, hf.names, Needs.hoists_append]
    exact or_or_or_comm
  bound hmem := (List.mem_append.mp hmem).elim (fun hmem => (h.bound hmem).append_left)
    fun hmem => (hf.bound hmem).append_right

/-- What is made of a value is told of as the value is. -/
theorem map (h : x.Tells root name p) (g : α → β) : (x >>= fun a => Pure.pure (g a)).Tells root name p :=
  (h.bind (pure (g x.value))).congr (iff_of_eq (or_false p))

/-- What a value mentions is gathered in its place. -/
theorem hoist (h : x.Tells root name p) (hnames : (f x.value).needs.names = [])
    (hhoists : (f x.value).needs.Hoists name ↔ p)
    (hbound : name ∈ (f x.value).needs.bound → (f x.value).needs.Imports root name) :
    (x >>= f).Tells root name False where
  names := by
    show name ∈ x.needs.names ++ (f x.value).needs.names ↔ False ∨ (x.needs ++ (f x.value).needs).Hoists name
    rw [hnames, List.append_nil, h.names, Needs.hoists_append, hhoists, false_or, or_comm]
  bound hmem := (List.mem_append.mp hmem).elim (fun hmem => (h.bound hmem).append_left)
    fun hmem => (hbound hmem).append_right

theorem refer (other : String) : (Rendered.refer other).Tells root name ((Rendered.refer other).value.Mentions name) :=
  (noted (Expr.ident other) [other]).congr (by rw [List.mem_singleton, Rendered.refer, mentions_ident, eq_comm])

theorem report (fault : Fault) : (Rendered.report fault).Tells root name False :=
  ⟨by simp [Rendered.report, Rendered.gather, Needs.Hoists], fun h => absurd h List.not_mem_nil⟩

theorem forAll {q : β → Prop} {as : List α} (h : ∀ a ∈ as, (f a).Tells root name (q (f a).value)) :
    (Rendered.forAll f as).Tells root name (∃ b ∈ (Rendered.forAll f as).value, q b) := by
  induction as with
  | nil => exact (pure []).congr (by simp [Rendered.forAll, Rendered.value_pure])
  | cons a as ih =>
      have hothers := ih fun other hother => h other (List.mem_cons_of_mem a hother)
      exact .congr ((h a List.mem_cons_self).bind (hothers.map _)) (List.exists_mem_cons_iff q _ _).symm

end Rendered.Tells

theorem Rendered.value_forAll {α β : Type} (f : α → Rendered β) (as : List α) :
    (Rendered.forAll f as).value = as.map fun a => (f a).value := by
  induction as with
  | nil => rfl
  | cons a as ih => exact congrArg ((f a).value :: ·) ih

/-- A renderer that tells a name of all nodes of a tree. -/
def TellingRenderer (root : Node) (name : String) (render : Renderer) : Prop :=
  ∀ role n, Node.Within root n → (render role n).Tells root name (∃ e ∈ (render role n).value, e.Mentions name)

/-- What is left of optional values. -/
theorem exists_mem_reduced {α : Type} {p : α → Prop} {as : List (Option α)} :
    (∃ a ∈ as.filterMap id, p a) ↔ ∃ a? ∈ as, ∃ a ∈ a?, p a := by
  constructor
  · rintro ⟨a, ha, hp⟩
    obtain ⟨a?, hmem, heq⟩ := List.mem_filterMap.mp ha
    exact ⟨a?, hmem, a, heq, hp⟩
  · rintro ⟨a?, hmem, a, heq, hp⟩
    exact ⟨a, List.mem_filterMap.mpr ⟨a?, hmem, heq⟩, hp⟩

/-! ## Inline content and commands in script -/

theorem mentions_items {exprs : List Expr} :
    (∃ elem ∈ exprs.map Elem.item, elem.expr.Mentions name) ↔ ∃ e ∈ exprs, e.Mentions name := by
  simp [Elem.expr]

section Elements

variable (hname : IsComponentName name)

include hname

/-- The factory is no component, so an element mentions what is built, its properties and its children. -/
theorem mentions_element {tag properties : Expr} {children : List Elem} :
    (Expr.element tag properties children).Mentions name ↔
      tag.Mentions name ∨ properties.Mentions name ∨ ∃ child ∈ children, child.expr.Mentions name := by
  simp [Expr.element, hname.ne_factory, Elem.expr]

theorem mentions_tag {tag : String} {children : List Elem} :
    (Expr.tag tag children).Mentions name ↔ ∃ child ∈ children, child.expr.Mentions name := by
  simp [Expr.tag, mentions_element hname]

end Elements

theorem inlineExprs_tells (hrender : TellingRenderer root name render) (h : ∀ n ∈ nodes, Node.Within root n) :
    (inlineExprs render nodes).Tells root name (∃ e ∈ (inlineExprs render nodes).value, e.Mentions name) := by
  have hall := Rendered.Tells.forAll (q := fun e? : Option Expr => ∃ e ∈ e?, e.Mentions name)
    fun n hn => hrender .inline n (h n hn)
  exact .congr (hall.map _) exists_mem_reduced.symm

theorem inlineElems_tells (hrender : TellingRenderer root name render) (h : ∀ n ∈ nodes, Node.Within root n) :
    (inlineElems render nodes).Tells root name (∃ elem ∈ (inlineElems render nodes).value, elem.expr.Mentions name) :=
  .congr ((inlineExprs_tells hrender h).map _) mentions_items.symm

theorem embedded_tells (hname : IsComponentName name) (hrender : TellingRenderer root name render)
    (h : Node.Within root n) : (embedded render n).Tells root name ((embedded render n).value.Mentions name) := by
  unfold embedded
  split
  · exact (Rendered.Tells.pure _).congr (by simp [Rendered.value_pure])
  · rename_i nodes hnodes
    have hexprs := inlineExprs_tells hrender (hostedSequence?_within h hnodes)
    rw [Rendered.value_bind]
    generalize hvalue : (inlineExprs render nodes).value = exprs at hexprs
    refine (hexprs.bind (q := False) ?_).congr ?_
    · rw [hvalue]
      split <;> exact .pure _
    · split
      · simp [Rendered.value_pure]
      · simp [Rendered.value_pure]
      · simp [Rendered.value_pure, mentions_element hname, hname.ne_fragment, Elem.expr]

/-! ## Copying tokens -/

/-- A result of copying to script: it mentions what the script did and what is told of the copying. -/
structure Rendered.Adds (x : Rendered Code) (root : Node) (name : String) (code : Code) : Prop where
  tells : ∃ added, (x.value.Mentions name ↔ code.Mentions name ∨ added) ∧ x.Tells root name added
  commas : code.CommasAlone → x.value.CommasAlone

namespace Rendered.Adds

variable {x : Rendered Code} {f : Code → Rendered Code}

/-- Script that mentions as much as before. -/
theorem kept {copied : Code} (h : copied.Mentions name ↔ code.Mentions name)
    (hcommas : code.CommasAlone → copied.CommasAlone) : (pure copied : Rendered Code).Adds root name code :=
  ⟨⟨False, h.trans (iff_of_eq (or_false _)).symm, .pure copied⟩, hcommas⟩

theorem bind (h : x.Adds root name code) (hf : (f x.value).Adds root name x.value) :
    (x >>= f).Adds root name code := by
  obtain ⟨added, hadded, htells⟩ := h.tells
  obtain ⟨more, hmore, hothers⟩ := hf.tells
  refine ⟨⟨added ∨ more, ?_, htells.bind hothers⟩, fun hcode => hf.commas (h.commas hcode)⟩
  rw [Rendered.value_bind, hmore, hadded, or_assoc]

/-- What is copied to no script is told as a whole. -/
theorem tells_value (h : x.Adds root name []) : x.Tells root name (x.value.Mentions name) := by
  obtain ⟨added, hadded, htells⟩ := h.tells
  refine htells.congr ?_
  rw [hadded]
  simp [Code.Mentions, Code.HasWord]

end Rendered.Adds

theorem trim_tokenText {t : String} (h : IsTokenText t) : Text.trim t.toList = t.toList := by
  obtain ⟨c, hfirst, hc⟩ := h.first
  obtain ⟨d, hlast, hd, -⟩ := h.last
  exact trim_eq_self hfirst hc hlast hd

/-- A token that ends in a comma is one. -/
theorem commasAlone_token {t : String} {o : Option Nat} (h : IsTokenText t) : Code.CommasAlone [.text t o] := by
  intro s o' hmem hcomma
  obtain ⟨rfl, -⟩ := Piece.text.inj (List.mem_singleton.mp hmem)
  obtain ⟨d, hlast, hd, hsole⟩ := h.last
  rw [trimEnd_eq_self hlast hd] at hcomma
  rw [trim_tokenText h, hsole (Option.some.inj (hlast.symm.trans hcomma))]
  rfl

/-- A token that is the name of a component is an identifier. -/
theorem TipOf.ident {k : ScriptKind} {t : String} {s : Span} (h : TipOf root (.leaf (.script k) t s))
    (hname : IsComponentName t) : k = .ident := by
  have hfull : (Node.leaf (.script k) t s).fullText = t := by
    simp [Node.fullText, Node.leaves, Node.text]
  obtain ⟨c, hc, hstart⟩ := hname.start
  exact h.named k c rfl (by rw [hfull]; exact hc) hstart (by rw [hfull]; exact hname.unreserved)

/-- A command in script is mentioned by the script. -/
theorem embedded_adds (hname : IsComponentName name) (hrender : TellingRenderer root name render)
    (h : Node.Within root n) (code : Code) :
    (embedded render n >>= fun e => pure (code ++ [.expr e])).Adds root name code :=
  ⟨⟨_, mentions_pushExpr, (embedded_tells hname hrender h).map _⟩, fun hcode => hcode.append (.expr _)⟩

/-- A token is added to script. -/
theorem pushToken_mentions {t : String} {place : Nat} (h : IsTokenText t) :
    (code.pushToken t place).Mentions name ↔ code.Mentions name ∨ code.endsInDot = false ∧ t = name := by
  rw [mentions_pushToken, trim_tokenText h, String.toList_inj]

theorem copyToken_adds (hname : IsComponentName name) {kind : Kind} {t : String} {s : Span}
    (h : TipOf root (.leaf kind t s)) : (copyToken kind t s.start code).Adds root name code := by
  obtain ⟨k, hkind, _⟩ := h.script
  obtain rfl : kind = .script k := hkind
  unfold copyToken
  split
  · exact .kept Iff.rfl id
  · rename_i hempty
    have ht : t.isEmpty = false := Bool.eq_false_iff.mpr hempty
    split
    · rename_i heq
      obtain rfl := Kind.script.inj heq
      exact .kept (mentions_pushText hname (h.blank ht)) fun hcode => hcode.pushText (h.blank ht)
    · exact .kept Iff.rfl id
    · have hblank : White " ".toList := List.forall_mem_singleton.mpr rfl
      exact .kept (mentions_pushText hname hblank) fun hcode => hcode.pushText hblank
    · rename_i heq
      obtain rfl := Kind.script.inj heq
      have htext := tokenText_of_tokenIn t _ (h.token rfl ht)
      -- the identifier is noted exactly if it does not stand behind a dot
      split
      · rename_i hdot
        refine ⟨⟨name ∈ [t], ?_, (Rendered.Tells.noted () [t]).map _⟩, fun hcode =>
          hcode.append (commasAlone_token htext)⟩
        rw [List.mem_singleton, eq_comm]
        refine (pushToken_mentions htext).trans (or_congr_right (and_iff_right ?_))
        exact Bool.not_eq_true' _ ▸ hdot
      · rename_i hdot
        refine ⟨⟨False, ?_, .pure _⟩, fun hcode => hcode.append (commasAlone_token htext)⟩
        refine (pushToken_mentions htext).trans (or_congr_right (iff_of_false ?_ id))
        exact fun hfree => hdot (by rw [hfree.1]; rfl)
    · rename_i hspace hline hblock hident
      have htrivia : (Kind.script k).isTrivia = false := by
        cases k
        case space => exact absurd rfl hspace
        case lineComment => exact absurd rfl hline
        case blockComment => exact absurd rfl hblock
        all_goals rfl
      have htext := tokenText_of_tokenIn t _ (h.token htrivia ht)
      refine .kept ?_ fun hcode => hcode.append (commasAlone_token htext)
      refine (pushToken_mentions htext).trans (or_iff_left fun hword => ?_)
      obtain rfl := hword.2
      exact hident (congrArg Kind.script (h.ident hname))

mutual

/-- **Copying a script notes the names that it mentions.** -/
theorem copyTree_adds (hname : IsComponentName name) (hrender : TellingRenderer root name render) :
    ∀ (n : Node) (code : Code), (∀ t ∈ n.tips, TipOf root t) → (copyTree render n code).Adds root name code
  | .fault message hints text s, code, h => by
      obtain ⟨k, hk, _⟩ := (h _ (List.mem_singleton.mpr rfl)).script
      exact absurd hk (by simp [Node.kind])
  | .leaf kind text s, code, h => by
      have htip := h _ (List.mem_singleton.mpr rfl)
      unfold copyTree
      split
      · exact embedded_adds hname hrender htip.within code
      · exact copyToken_adds hname htip
  | .inner kind s host count faulty children, code, h => by
      unfold copyTree
      split
      · rename_i hembed
        rw [Node.tips, if_pos hembed] at h
        exact embedded_adds hname hrender (h _ (List.mem_singleton.mpr rfl)).within code
      · rename_i hembed
        rw [Node.tips, if_neg hembed] at h
        exact copyTrees_adds hname hrender children code h

/-- Copying several scripts notes the names that they mention. -/
theorem copyTrees_adds (hname : IsComponentName name) (hrender : TellingRenderer root name render) :
    ∀ (ns : List Node) (code : Code), (∀ t ∈ Node.tipsOf ns, TipOf root t) →
      (copyTrees render ns code).Adds root name code
  | [], _, _ => .kept Iff.rfl id
  | n :: ns, code, h =>
      (copyTree_adds hname hrender n code fun t ht => h t (List.mem_append_left _ ht)).bind
        (copyTrees_adds hname hrender ns _ fun t ht => h t (List.mem_append_right _ ht))

end

/-! ## Statements, expressions and attribute lists -/

/-- An import notes no names, and what it binds are names that its tokens bind. -/
theorem importNeeds_names (decl : Node) : (importNeeds decl).names = [] ∧
    ∀ name ∈ (importNeeds decl).bound, BindsName (declTokens decl) name := by
  unfold importNeeds
  dsimp only
  split
  · exact ⟨rfl, fun _ hmem => absurd hmem List.not_mem_nil⟩
  · exact ⟨rfl, fun _ hmem => mem_boundNames.mp hmem⟩

/-- **A statement tells the names of what is given back.**  Of an import or an export nothing is, but it is gathered. -/
theorem statement_tells (hname : IsComponentName name) (hrender : TellingRenderer root name render)
    (hn : Node.Within root n) (h : ∀ t ∈ n.tips, TipOf root t) :
    (statement render n).Tells root name (∃ code ∈ (statement render n).value, code.Mentions name) := by
  have hcopied := (copyTree_adds hname hrender n [] h).tells_value
  rw [← mentions_trimEnd hname] at hcopied
  unfold statement
  dsimp only
  split
  · rename_i hkind
    obtain ⟨hnames, hbinds⟩ := importNeeds_names n
    refine .congr (.hoist hcopied ?_ ?_ fun hmem => ?_) (by simp [Rendered.value_bind, Rendered.value_pure])
    · show (importNeeds n).names ++ [] = []
      rw [hnames, List.append_nil]
    · show (∃ code ∈ ([_] ++ []) ++ ((importNeeds n).exports ++ []), code.Mentions name) ↔ _
      rw [(importNeeds_spec n).2]
      simp
    · have hmem : name ∈ (importNeeds n).bound ++ [] := hmem
      rw [List.append_nil] at hmem
      exact ⟨n, render, hn, hkind, List.mem_singleton_self _, hbinds name hmem⟩
  · split
    · refine .congr (.hoist hcopied rfl ?_ fun hmem => absurd hmem List.not_mem_nil)
        (by simp [Rendered.value_bind, Rendered.value_pure])
      show (∃ code ∈ [] ++ ([_] ++ []), Code.Mentions name code) ↔ _
      simp
    · exact .congr (.map hcopied _) (by simp [Rendered.value_bind, Rendered.value_pure])

theorem scriptStatements_tells (hname : IsComponentName name) (hrender : TellingRenderer root name render)
    (hscripts : SoundScripts root) {body : Option Node} (h : ∀ host, body = some host → IsScriptOf root host) :
    (scriptStatements render body).Tells root name
      (∃ code ∈ (scriptStatements render body).value, code.Mentions name) := by
  unfold scriptStatements
  split
  · exact .congr (.pure _) (by simp [Rendered.value_pure])
  · rename_i host
    split
    · exact .congr (.map (.report _) _) (by simp [Rendered.value_bind, Rendered.value_pure])
    · rename_i script hroot
      obtain ⟨hkind, htips⟩ := hscripts host script (h host rfl) hroot
      have hwithin := (h host rfl).1.hostedRoot? hroot
      refine .congr (.map (.forAll (q := fun code? : Option Code => ∃ code ∈ code?, code.Mentions name) ?_) _)
        exists_mem_reduced.symm
      intro n hn
      have hmem := (List.mem_filter.mp hn).1
      exact statement_tells hname hrender (hwithin.child hmem) fun t ht => htips t (tips_child hkind hmem ht)

theorem hostedExpr_tells (hname : IsComponentName name) (hrender : TellingRenderer root name render)
    (hscripts : SoundScripts root) (h : IsScriptOf root host) :
    (hostedExpr render host).Tells root name (∃ e ∈ (hostedExpr render host).value, e.Mentions name) := by
  unfold hostedExpr
  split
  · exact .congr (.pure _) (by simp [Rendered.value_pure])
  · rename_i script hroot
    have hcopied := (copyTree_adds hname hrender script [] (hscripts host script h hroot).2).tells_value
    rw [← mentions_trim hname] at hcopied
    rw [Rendered.value_bind]
    dsimp only
    refine .congr (.bind (q := False) hcopied ?_) ?_
    · split
      · exact .pure _
      · split <;> exact .pure _
    · split
      · rename_i hblank
        simp [Rendered.value_pure, not_mentions_blank hname hblank]
      · split
        · rename_i e hcode
          rw [hcode]
          simp [Rendered.value_pure, Code.Mentions, Code.HasWord]
        · simp [Rendered.value_pure]

theorem hostedMembers_tells (hname : IsComponentName name) (hrender : TellingRenderer root name render)
    (hscripts : SoundScripts root) (h : IsScriptOf root host) :
    (hostedMembers render host).Tells root name
      (∃ member ∈ (hostedMembers render host).value, member.Mentions name) := by
  unfold hostedMembers
  split
  · exact .congr (.map (.report _) _) (by simp [Rendered.value_bind, Rendered.value_pure])
  · rename_i script hroot
    have hadds := copyTree_adds hname hrender script [] (hscripts host script h hroot).2
    refine .congr (.map hadds.tells_value _) ?_
    have hlisted : (Code.trim (Code.dropComma (Code.trim (copyTree render script []).value))).Mentions name ↔
        (copyTree render script []).value.Mentions name := by
      rw [mentions_trim hname, mentions_dropComma hname (hadds.commas .nil).trim, mentions_trim hname]
    rw [← hlisted, Rendered.value_bind, Rendered.value_pure]
    split
    · rename_i hblank
      simp [not_mentions_blank hname hblank]
    · simp

/-! ## Sequences -/

/-- A part of a sequence mentions a name: its expression, its statements or its member do. -/
def Part.Mentions (name : String) : Part → Prop
  | .block e => e.Mentions name
  | .scope statements _ => ∃ code ∈ statements, code.Mentions name
  | .property member => member.Mentions name

/-- The properties and the elements of a sequence mention what its parts do. -/
theorem mentions_parts {parts : List Part} : (∃ part ∈ parts, part.Mentions name) ↔
    (∃ member ∈ partProperties parts, member.Mentions name) ∨ ∃ elem ∈ nestParts parts, elem.expr.Mentions name := by
  induction parts with
  | nil => simp [partProperties, nestParts]
  | cons part parts ih =>
      rw [List.exists_mem_cons_iff, ih]
      cases part with
      | block e => simp [partProperties, nestParts, Part.Mentions, Elem.expr, or_left_comm]
      | property member => simp [partProperties, nestParts, Part.Mentions, or_assoc]
      | scope statements origin => simp [partProperties, nestParts, Part.Mentions, Elem.expr, or_left_comm]

theorem attributeMember_tells (hname : IsComponentName name) (hrender : TellingRenderer root name render)
    (hscripts : SoundScripts root) (start : Nat) (key : String) {value : Option Node}
    (hvalue : ∀ host, value = some host → IsScriptOf root host) :
    (attributeMember render start key value).Tells root name
      ((attributeMember render start key value).value.Mentions name) := by
  unfold attributeMember
  split
  · exact .congr (.pure _) (by simp [Rendered.value_pure])
  · rename_i host
    refine .congr (.map (hostedExpr_tells hname hrender hscripts (hvalue host rfl)) _) ?_
    rw [Rendered.value_bind, Rendered.value_pure]
    cases (hostedExpr render host).value with
    | none => simp
    | some e => simp

theorem partOf_tells (hname : IsComponentName name) (hrender : TellingRenderer root name render)
    (hscripts : SoundScripts root) (configurable : Bool) (h : Node.Within root n) :
    (partOf render configurable n).Tells root name
      (∃ part ∈ (partOf render configurable n).value, part.Mentions name) := by
  unfold partOf
  split
  · rename_i key value hview
    unfold attributePart
    split
    · refine .congr (.map (attributeMember_tells hname hrender hscripts n.start key (view?_within h hview)) _) ?_
      simp [Rendered.value_bind, Rendered.value_pure, Part.Mentions]
    · exact .congr (.map (.report _) _) (by simp [Rendered.value_bind, Rendered.value_pure])
  · rename_i body hview
    refine .congr (.map (scriptStatements_tells hname hrender hscripts (view?_within h hview)) _) ?_
    rw [Rendered.value_bind, Rendered.value_pure]
    split
    · rename_i hempty
      simp [List.isEmpty_iff.mp hempty]
    · simp [Part.Mentions]
  · refine .congr (.map (hrender .block n h) _) ?_
    simp [Rendered.value_bind, Rendered.value_pure, Part.Mentions]

theorem sequenceParts_tells (hname : IsComponentName name) (hrender : TellingRenderer root name render)
    (hscripts : SoundScripts root) (configurable : Bool) (h : ∀ n ∈ nodes, Node.Within root n) :
    (sequenceParts render configurable nodes).Tells root name
      (∃ part ∈ (sequenceParts render configurable nodes).value, part.Mentions name) :=
  .congr (.map (.forAll (q := fun part? : Option Part => ∃ part ∈ part?, part.Mentions name)
    fun n hn => partOf_tells hname hrender hscripts configurable (h n hn)) _) exists_mem_reduced.symm

/-- What a node contributes is a property exactly if it is an attribute line and there is something to configure. -/
theorem partOf_property {configurable : Bool} {part : Part} (h : part ∈ (partOf render configurable n).value) :
    (∃ member, part = .property member) ↔
      configurable = true ∧ ∃ key value, view? n = some (.attributeLine key value) := by
  unfold partOf at h
  split at h
  · rename_i key value hview
    unfold attributePart at h
    split at h
    · rename_i hconfigurable
      exact iff_of_true ⟨_, (Option.mem_some_iff.mp h).symm⟩ ⟨hconfigurable, key, value, hview⟩
    · exact absurd h (Option.not_mem_none part)
  · rename_i body hview
    have hscope : ∃ statements, part = .scope statements n.start := by
      rw [Rendered.value_bind, Rendered.value_pure] at h
      split at h
      · exact absurd h (Option.not_mem_none part)
      · exact ⟨_, (Option.mem_some_iff.mp h).symm⟩
    obtain ⟨statements, rfl⟩ := hscope
    simp [hview]
  · rename_i hattribute hscript
    obtain ⟨e, -, rfl⟩ := Option.mem_map.mp h
    refine iff_of_false (fun ⟨_, hproperty⟩ => Part.noConfusion hproperty) ?_
    rintro ⟨-, key, value, hview⟩
    exact hattribute key value hview

/-- A part of a sequence is what one of its nodes contributes. -/
theorem mem_sequenceParts {configurable : Bool} {part : Part}
    (h : part ∈ (sequenceParts render configurable nodes).value) :
    ∃ n ∈ nodes, part ∈ (partOf render configurable n).value := by
  obtain ⟨part?, hpart?, heq⟩ := List.mem_filterMap.mp h
  rw [Rendered.value_forAll] at hpart?
  obtain ⟨n, hn, rfl⟩ := List.mem_map.mp hpart?
  exact ⟨n, hn, heq⟩

theorem configurableSequence_tells (hname : IsComponentName name) (hrender : TellingRenderer root name render)
    (hscripts : SoundScripts root) (h : ∀ n ∈ nodes, Node.Within root n) :
    (configurableSequence render nodes).Tells root name
      ((∃ member ∈ (configurableSequence render nodes).value.1, member.Mentions name) ∨
        (configurableSequence render nodes).value.2.Mentions name) := by
  refine .congr (.map (sequenceParts_tells hname hrender hscripts true h) _) (mentions_parts.trans ?_)
  rw [← mentions_array]
  rfl

/-- A sequence that cannot be configured has no properties. -/
theorem plainParts_properties (nodes : List Node) :
    partProperties (sequenceParts render false nodes).value = [] := by
  refine List.filterMap_eq_nil_iff.mpr fun part hpart => ?_
  obtain ⟨n, -, hpart⟩ := mem_sequenceParts hpart
  cases part with
  | block e => rfl
  | scope statements origin => rfl
  | property member => exact absurd ((partOf_property hpart).mp ⟨member, rfl⟩).1 Bool.false_ne_true

/-- Attribute lines of a sequence that can be configured have nothing to show. -/
theorem attributeParts_elems (h : ∀ n ∈ nodes, n.isMarkup .attributeLine) :
    nestParts (sequenceParts render true nodes).value = [] := by
  have hall : ∀ part ∈ (sequenceParts render true nodes).value, ∃ member, part = .property member := by
    intro part hpart
    obtain ⟨n, hn, hpart⟩ := mem_sequenceParts hpart
    have hkind : n.kind = .markup .attributeLine := beq_iff_eq.mp (h n hn)
    refine (partOf_property hpart).mpr ⟨rfl, childText n .attributeKey, n.child? .attributeValue, ?_⟩
    rw [view?, hkind]
    rfl
  generalize (sequenceParts render true nodes).value = parts at hall
  induction parts with
  | nil => rfl
  | cons part parts ih =>
      obtain ⟨member, rfl⟩ := hall part List.mem_cons_self
      exact ih fun other hother => hall other (List.mem_cons_of_mem _ hother)

theorem plainSequence_tells (hname : IsComponentName name) (hrender : TellingRenderer root name render)
    (hscripts : SoundScripts root) (h : ∀ n ∈ nodes, Node.Within root n) :
    (plainSequence render nodes).Tells root name ((plainSequence render nodes).value.Mentions name) := by
  refine .congr (.map (sequenceParts_tells hname hrender hscripts false h) _) (mentions_parts.trans ?_)
  rw [plainParts_properties, ← mentions_array]
  simp only [List.not_mem_nil, false_and, exists_false, false_or]
  rfl

end ComponentMarkup.Render
