import ComponentMarkup.Proofs.Document.Views
import ComponentMarkup.Proofs.Program.SimplifyMeaning
import ComponentMarkup.Proofs.Render.Tokens
import ComponentMarkup.Program.Module
import ComponentMarkup.Render.Markup

/-!
# Sound expressions

Rendering goes through a tree and builds expressions of what it finds.  Every origin that it writes down is the
start of a node of the tree, and every text that it copies is that of a token where it stands.  It also keeps calls
simple: the factory gets the name and the properties of an element as single values, other functions get single
values only, and only the properties of the document are spread into an object.  An expression is sound if all this
holds of it, and what is built of sound expressions is sound.

* `IsSound`, `SoundExpr`, `SoundCode` — right origins and simple calls, in expressions and in script;
* `sound_call`, `sound_element`, `sound_scope`, `sound_located` — how sound expressions are built;
* `Rendered.Sound` — a result of rendering all of whose script is sound.
-/

namespace ComponentMarkup.Render

open ComponentMarkup.Text ComponentMarkup.Tree ComponentMarkup.Document ComponentMarkup.Program
open ComponentMarkup.Script

variable {root : Node}

/-! ## Sound expressions -/

/-- The start of a node of a tree. -/
def StartsIn (root : Node) (o : Nat) : Prop :=
  ∃ n, Node.Within root n ∧ n.start = o

/-- The text of a token of a tree, and where it stands. -/
def TokenIn (root : Node) (t : String) (o : Nat) : Prop :=
  ∃ k s, Node.Within root (.leaf (.script k) t s) ∧ s.start = o ∧ IsTokenText t

theorem tokenText_of_tokenIn (t : String) (o : Nat) (h : TokenIn root t o) : IsTokenText t := by
  obtain ⟨_, _, _, _, htext⟩ := h
  exact htext

/-- A call whose arguments stay apart when it is simplified, or an object into which at most the properties of the
document are spread. -/
def IsSimple : Form → Prop
  | .call callee arguments => (∀ elem ∈ arguments, elem.isItem) ∨
      callee = .ident Expr.factoryName ∧ ∀ elem ∈ arguments.take 2, elem.isItem
  | .object members => ∀ e, .spread e ∈ members → e = .ident documentProperties
  | _ => True

/-- An expression with right origins and simple calls, apart from what stands in it. -/
structure IsSound (root : Node) (e : Expr) : Prop where
  traced : e.Traced (StartsIn root) (CopiedFrom (TokenIn root))
  simple : IsSimple e.form

/-- An expression that is sound everywhere. -/
abbrev SoundExpr (root : Node) (e : Expr) : Prop :=
  e.Everywhere (IsSound root)

/-- Script that was copied from tokens, with sound expressions. -/
structure SoundCode (root : Node) (code : Code) : Prop where
  copies : CopiesTokens (TokenIn root) code
  exprs : ∀ e ∈ code.exprs, SoundExpr root e

/-- Elements whose expressions are sound. -/
def SoundElems (root : Node) (elems : List Elem) : Prop :=
  ∀ elem ∈ elems, SoundExpr root elem.expr

/-- A member whose expressions and script are sound.  If it is a spread, then of the properties of the document. -/
def SoundMember (root : Node) : Member → Prop
  | .pair _ e => SoundExpr root e
  | .spread e => e = .ident documentProperties
  | .code pieces => SoundCode root pieces

/-- Members that are sound. -/
def SoundMembers (root : Node) (members : List Member) : Prop :=
  ∀ member ∈ members, SoundMember root member

variable {e callee body : Expr} {form : Form} {elems children : List Elem} {members : List Member} {code : Code}
  {statements : List Code}

theorem SoundMembers.nil : SoundMembers root [] :=
  fun _ h => absurd h List.not_mem_nil

theorem SoundMembers.single {member : Member} (h : SoundMember root member) : SoundMembers root [member] :=
  fun _ hmem => List.mem_singleton.mp hmem ▸ h

theorem SoundMembers.append {others : List Member} (h : SoundMembers root members) (h' : SoundMembers root others) :
    SoundMembers root (members ++ others) := by
  intro member hmember
  rcases List.mem_append.mp hmember with hmember | hmember
  · exact h member hmember
  · exact h' member hmember

theorem SoundMembers.optional {α : Type} {f : α → Member} (h : ∀ a, SoundMember root (f a)) (a? : Option α) :
    SoundMembers root (a?.map f).toList := by
  cases a? with
  | none => exact .nil
  | some a => exact .single (h a)

theorem SoundElems.nil : SoundElems root [] :=
  fun _ h => absurd h List.not_mem_nil

theorem SoundElems.cons {elem : Elem} (helem : SoundExpr root elem.expr) (h : SoundElems root elems) :
    SoundElems root (elem :: elems) := by
  intro other hother
  rcases List.mem_cons.mp hother with rfl | hother
  · exact helem
  · exact h other hother

theorem SoundElems.append {others : List Elem} (h : SoundElems root elems) (h' : SoundElems root others) :
    SoundElems root (elems ++ others) := by
  intro elem helem
  rcases List.mem_append.mp helem with helem | helem
  · exact h elem helem
  · exact h' elem helem

theorem SoundElems.single {elem : Elem} (h : SoundExpr root elem.expr) : SoundElems root [elem] :=
  .cons h .nil

theorem SoundElems.optional {α : Type} {f : α → Elem} (h : ∀ a, SoundExpr root (f a).expr) (a? : Option α) :
    SoundElems root (a?.map f).toList := by
  cases a? with
  | none => exact .nil
  | some a => exact .single (h a)

/-- Expressions as elements. -/
theorem SoundElems.items {es : List Expr} (h : ∀ e ∈ es, SoundExpr root e) : SoundElems root (es.map Elem.item) := by
  intro elem helem
  obtain ⟨e, he, rfl⟩ := List.mem_map.mp helem
  exact h e he

/-! ## Building sound expressions -/

/-- An expression of no origin. -/
theorem sound_bare (hcodes : ∀ code ∈ form.codes, CopiesTokens (TokenIn root) code) (hsimple : IsSimple form)
    (hexprs : ∀ e ∈ form.exprs, SoundExpr root e) : SoundExpr root (.bare form) :=
  .mk ⟨⟨fun _ ho => absurd ho (Option.some_ne_none _).symm, hcodes⟩, hsimple⟩ hexprs

/-- A form without anything in it. -/
theorem sound_atom (hcodes : form.codes = []) (hexprs : form.exprs = []) (hsimple : IsSimple form) :
    SoundExpr root (.bare form) := by
  refine sound_bare (fun code hcode => ?_) hsimple fun e he => ?_
  · rw [hcodes] at hcode
    cases hcode
  · rw [hexprs] at he
    cases he

theorem sound_null : SoundExpr root .null :=
  sound_atom rfl rfl trivial

theorem sound_bool (b : Bool) : SoundExpr root (.bool b) :=
  sound_atom rfl rfl trivial

theorem sound_str (s : String) : SoundExpr root (.str s) :=
  sound_atom rfl rfl trivial

theorem sound_ident (name : String) : SoundExpr root (.ident name) :=
  sound_atom rfl rfl trivial

theorem sound_index (h : SoundExpr root e) (n : Nat) : SoundExpr root (.bare (.index e n)) :=
  sound_bare (fun _ hcode => absurd hcode List.not_mem_nil) trivial fun _ hinner => List.mem_singleton.mp hinner ▸ h

theorem sound_array (h : SoundElems root elems) : SoundExpr root (.array elems) := by
  refine sound_bare (fun _ hcode => absurd hcode List.not_mem_nil) trivial fun inner hinner => ?_
  obtain ⟨elem, helem, rfl⟩ := List.mem_map.mp hinner
  exact h elem helem

theorem sound_object (h : SoundMembers root members) : SoundExpr root (.object members) := by
  refine sound_bare (fun code hcode => ?_) (fun e he => h _ he) fun inner hinner => ?_
  · obtain ⟨member, hmember, hcode⟩ := List.mem_flatMap.mp hcode
    have hsound := h member hmember
    cases member with
    | pair key e => cases hcode
    | spread e => cases hcode
    | code pieces => exact List.mem_singleton.mp hcode ▸ hsound.copies
  · obtain ⟨member, hmember, hinner⟩ := List.mem_flatMap.mp hinner
    have hsound := h member hmember
    cases member with
    | pair key e => exact List.mem_singleton.mp hinner ▸ hsound
    | spread e => exact List.mem_singleton.mp hinner ▸ hsound ▸ sound_ident _
    | code pieces => exact hsound.exprs inner hinner

/-- A call of single values. -/
theorem sound_call (hcallee : SoundExpr root callee) (h : SoundElems root elems)
    (hsimple : IsSimple (.call callee elems)) : SoundExpr root (.call callee elems) := by
  refine sound_bare (fun _ hcode => absurd hcode List.not_mem_nil) hsimple fun inner hinner => ?_
  rcases List.mem_cons.mp hinner with rfl | hinner
  · exact hcallee
  · obtain ⟨elem, helem, rfl⟩ := List.mem_map.mp hinner
    exact h elem helem

theorem sound_element {name properties : Expr} (hname : SoundExpr root name) (hproperties : SoundExpr root properties)
    (h : SoundElems root children) : SoundExpr root (.element name properties children) := by
  refine sound_call (sound_ident _) (.cons hname (.cons hproperties h)) (.inr ⟨rfl, ?_⟩)
  intro elem helem
  have hmem : elem ∈ [Elem.item name, .item properties] := helem
  rcases List.mem_pair.mp hmem with rfl | rfl
  · rfl
  · rfl

theorem sound_tag (name : String) (h : SoundElems root children) : SoundExpr root (.tag name children) :=
  sound_element (sound_str name) (sound_object .nil) h

theorem sound_scope (hstatements : ∀ code ∈ statements, SoundCode root code) (hbody : SoundExpr root body) :
    SoundExpr root (.bare (.scope statements body)) := by
  refine sound_bare (fun code hcode => (hstatements code hcode).copies) trivial fun inner hinner => ?_
  rcases List.mem_cons.mp hinner with rfl | hinner
  · exact hbody
  · obtain ⟨code, hcode, hinner⟩ := List.mem_flatMap.mp hinner
    exact (hstatements code hcode).exprs inner hinner

theorem sound_arrow (parameter : String) (h : SoundExpr root body) : SoundExpr root (.bare (.arrow parameter body)) :=
  sound_bare (fun _ hcode => absurd hcode List.not_mem_nil) trivial fun _ hinner => List.mem_singleton.mp hinner ▸ h

theorem sound_code (h : SoundCode root code) : SoundExpr root (.bare (.code code)) :=
  sound_bare (fun _ hcode => List.mem_singleton.mp hcode ▸ h.copies) trivial h.exprs

/-- An expression at the start of a node. -/
theorem sound_located (h : SoundExpr root e) {n : Node} (hn : Node.Within root n) :
    SoundExpr root (e.located n.start) := by
  refine .mk ⟨⟨fun o ho => ⟨n, hn, Option.some.inj ho⟩, h.here.traced.copies⟩, h.here.simple⟩ fun inner hinner => ?_
  exact h.inside hinner

/-! ## Sound results -/

/-- A result of rendering whose value satisfies a property and whose imports and exports are sound. -/
structure Rendered.Sound {α : Type} (root : Node) (p : α → Prop) (x : Rendered α) : Prop where
  value : p x.value
  imports : ∀ code ∈ x.needs.imports, SoundCode root code
  exports : ∀ code ∈ x.needs.exports, SoundCode root code

namespace Rendered.Sound

variable {α β : Type} {p : α → Prop} {q : β → Prop} {x : Rendered α} {f : α → Rendered β}

theorem pure {a : α} (h : p a) : (Pure.pure a : Rendered α).Sound root p :=
  ⟨h, fun _ hcode => absurd hcode List.not_mem_nil, fun _ hcode => absurd hcode List.not_mem_nil⟩

theorem bind (h : x.Sound root p) (hf : ∀ a, p a → (f a).Sound root q) : (x >>= f).Sound root q := by
  have hrest := hf x.value h.value
  refine ⟨hrest.value, fun code hcode => ?_, fun code hcode => ?_⟩
  · rcases List.mem_append.mp (show code ∈ x.needs.imports ++ (f x.value).needs.imports from hcode) with hcode | hcode
    · exact h.imports code hcode
    · exact hrest.imports code hcode
  · rcases List.mem_append.mp (show code ∈ x.needs.exports ++ (f x.value).needs.exports from hcode) with hcode | hcode
    · exact h.exports code hcode
    · exact hrest.exports code hcode

theorem map {g : α → β} (h : x.Sound root p) (hg : ∀ a, p a → q (g a)) : (g <$> x).Sound root q :=
  h.bind fun a ha => .pure (hg a ha)

theorem weaken {p' : α → Prop} (h : x.Sound root p) (hp : ∀ a, p a → p' a) : x.Sound root p' :=
  ⟨hp _ h.value, h.imports, h.exports⟩

theorem gather {needs : Needs} (himports : ∀ code ∈ needs.imports, SoundCode root code)
    (hexports : ∀ code ∈ needs.exports, SoundCode root code) : (Rendered.gather needs).Sound root fun _ => True :=
  ⟨trivial, himports, hexports⟩

theorem report (fault : Fault) : (Rendered.report fault).Sound root fun _ => True :=
  gather (fun _ hcode => absurd hcode List.not_mem_nil) fun _ hcode => absurd hcode List.not_mem_nil

theorem refer (name : String) : (Rendered.refer name).Sound root (SoundExpr root) :=
  ⟨sound_ident name, fun _ hcode => absurd hcode List.not_mem_nil, fun _ hcode => absurd hcode List.not_mem_nil⟩

theorem forAll {f : α → Rendered β} {as : List α} (h : ∀ a ∈ as, (f a).Sound root q) :
    (Rendered.forAll f as).Sound root fun bs => ∀ b ∈ bs, q b := by
  induction as with
  | nil => exact pure fun b hb => absurd hb List.not_mem_nil
  | cons a as ih =>
      refine (h a List.mem_cons_self).bind fun b hb => ?_
      refine (ih fun other hother => h other (List.mem_cons_of_mem a hother)).bind fun bs hbs => .pure ?_
      intro c hc
      rcases List.mem_cons.mp hc with rfl | hc
      · exact hb
      · exact hbs c hc

end Rendered.Sound

end ComponentMarkup.Render
