import ComponentMarkup.Proofs.Program.Everywhere

/-!
# Traced expressions

Expressions tell where in a document they stem from, and so does the text that is copied into them.  What they
tell is right if it is right everywhere in the expression.  Simplifying takes origins over from one expression to
another, but it invents none and leaves copied text alone.  Laying out prints every piece of script that stands
anywhere in the expression.

* `Expr.Traced` — the origins of an expression and of the text in it are right;
* `simplify_traced` — simplifying keeps them right;
* `Expr.Prints`, `Expr.Prints.layout` — the pieces of script in an expression are printed.
-/

namespace ComponentMarkup.Program

open ComponentMarkup.Text

/-- The script that stands directly in a member. -/
def Member.codes : Member → List Code
  | .code pieces => [pieces]
  | _ => []

/-- The script that stands directly in a form. -/
@[simp] def Form.codes : Form → List Code
  | .object members => members.flatMap Member.codes
  | .scope statements _ => statements
  | .code pieces => [pieces]
  | _ => []

/-- Text of script that was copied was copied from where it says. -/
def Code.Copies (copied : String → Nat → Prop) (code : Code) : Prop :=
  ∀ t o, .text t (some o) ∈ code → copied t o

/-- The origins of an expression, and those of the text that was copied into it, are right. -/
structure Expr.Traced (starts : Nat → Prop) (copied : String → Nat → Prop) (e : Expr) : Prop where
  origin : ∀ o, e.origin = some o → starts o
  copies : ∀ code ∈ e.form.codes, code.Copies copied

section Simplified

variable {starts : Nat → Prop} {copied : String → Nat → Prop}

/-- Elements with right origins. -/
def ElemsTraced (starts : Nat → Prop) (copied : String → Nat → Prop) (elems : List Elem) : Prop :=
  ∀ elem ∈ elems, elem.expr.Everywhere (Expr.Traced starts copied)

/-- Members with right origins. -/
def MembersTraced (starts : Nat → Prop) (copied : String → Nat → Prop) (members : List Member) : Prop :=
  ∀ member ∈ members, (∀ e ∈ member.exprs, e.Everywhere (Expr.Traced starts copied)) ∧
    ∀ code ∈ member.codes, code.Copies copied

variable {e : Expr} {o : Option Nat} {elems others : List Elem} {members : List Member} {code : Code}

theorem inherit_traced (h : e.Everywhere (Expr.Traced starts copied)) (ho : ∀ n, o = some n → starts n) :
    (e.inherit o).Everywhere (Expr.Traced starts copied) := by
  refine .mk ⟨?_, h.here.copies⟩ fun inner hinner => h.inside hinner
  intro n hn
  rcases Option.or_eq_some_iff.mp hn with horigin | ⟨_, horigin⟩
  · exact h.here.origin n horigin
  · exact ho n horigin

theorem ElemsTraced.append (h : ElemsTraced starts copied elems) (h' : ElemsTraced starts copied others) :
    ElemsTraced starts copied (elems ++ others) := by
  intro elem helem
  rcases List.mem_append.mp helem with helem | helem
  · exact h elem helem
  · exact h' elem helem

theorem mergeStrings_traced (h : ElemsTraced starts copied elems) : ElemsTraced starts copied (mergeStrings elems) := by
  induction elems with
  | nil => exact h
  | cons elem elems ih =>
      have hrest := ih fun other hother => h other (List.mem_cons_of_mem _ hother)
      rcases mergeStrings_cases elem elems with hkept | ⟨o, s, o', t, rest, rfl, hmerged, hjoined⟩
      · rw [hkept]
        exact ElemsTraced.append (fun other hother => List.mem_singleton.mp hother ▸ h _ List.mem_cons_self) hrest
      · rw [hjoined]
        intro other hother
        rcases List.mem_cons.mp hother with rfl | hother
        · -- the joined literal has the origin of the first one
          have hfirst := h _ List.mem_cons_self
          exact .mk ⟨hfirst.here.origin, fun code hcode => absurd hcode List.not_mem_nil⟩
            fun inner hinner => absurd hinner List.not_mem_nil
        · exact hrest other (by rw [hmerged]; exact List.mem_cons_of_mem _ hother)

theorem mergeStringsFrom_traced (n : Nat) (h : ElemsTraced starts copied elems) :
    ElemsTraced starts copied (mergeStringsFrom n elems) := by
  refine ElemsTraced.append (fun elem helem => h elem (List.mem_of_mem_take helem)) ?_
  exact mergeStrings_traced fun elem helem => h elem (List.mem_of_mem_drop helem)

theorem spreadElems_traced (h : e.Everywhere (Expr.Traced starts copied)) :
    ElemsTraced starts copied (spreadElems e) := by
  unfold spreadElems
  split
  · rename_i elems hform
    intro elem helem
    exact h.inside (by rw [hform]; exact List.mem_map_of_mem helem)
  · intro elem helem
    obtain rfl := List.mem_singleton.mp helem
    exact h

theorem simplifyElems_traced
    (h : ∀ elem ∈ elems, (simplify elem.expr).Everywhere (Expr.Traced starts copied)) :
    ElemsTraced starts copied (simplifyElems elems) := by
  induction elems with
  | nil => exact fun elem helem => absurd helem List.not_mem_nil
  | cons elem elems ih =>
      refine ElemsTraced.append ?_ (ih fun other hother => h other (List.mem_cons_of_mem _ hother))
      have helem := h elem List.mem_cons_self
      cases elem with
      | item e => exact fun other hother => List.mem_singleton.mp hother ▸ helem
      | spread e => exact spreadElems_traced helem

theorem spreadMembers_traced (h : e.Everywhere (Expr.Traced starts copied)) :
    MembersTraced starts copied (spreadMembers e) := by
  unfold spreadMembers
  split
  · rename_i members hform
    intro member hmember
    refine ⟨fun inner hinner => h.inside ?_, fun code hcode => h.here.copies code ?_⟩
    · rw [hform]
      exact List.mem_flatMap.mpr ⟨member, hmember, hinner⟩
    · rw [hform]
      exact List.mem_flatMap.mpr ⟨member, hmember, hcode⟩
  · intro member hmember
    obtain rfl := List.mem_singleton.mp hmember
    exact ⟨fun inner hinner => List.mem_singleton.mp hinner ▸ h, fun code hcode => absurd hcode List.not_mem_nil⟩

/-- Simplifying leaves the text of script alone. -/
theorem Code.Copies.simplify (h : code.Copies copied) : Code.Copies copied (simplifyCode code) := by
  intro t o hmem
  rw [simplifyCode_eq, Code.mapExprs, List.mem_map] at hmem
  obtain ⟨piece, hpiece, heq⟩ := hmem
  cases piece with
  | text t' o' => exact h t o (by rw [← heq]; exact hpiece)
  | expr e => simp at heq

theorem exprs_simplifyCode (code : Code) : Code.exprs (simplifyCode code) = code.exprs.map Program.simplify := by
  induction code with
  | nil => rfl
  | cons piece code ih => cases piece <;> simp [simplifyCode, simplifyPiece, ih]

theorem simplifyMembers_traced
    (h : ∀ member ∈ members, (∀ e ∈ member.exprs, (simplify e).Everywhere (Expr.Traced starts copied)) ∧
      ∀ code ∈ member.codes, code.Copies copied) :
    MembersTraced starts copied (simplifyMembers members) := by
  induction members with
  | nil => exact fun member hmember => absurd hmember List.not_mem_nil
  | cons member members ih =>
      have hrest := ih fun other hother => h other (List.mem_cons_of_mem _ hother)
      obtain ⟨hexprs, hcodes⟩ := h member List.mem_cons_self
      have hfirst : MembersTraced starts copied (simplifyMember member) := by
        cases member with
        | pair key e =>
            intro other hother
            obtain rfl := List.mem_singleton.mp hother
            exact ⟨fun inner hinner => List.mem_singleton.mp hinner ▸ hexprs e List.mem_cons_self,
              fun code hcode => absurd hcode List.not_mem_nil⟩
        | spread e => exact spreadMembers_traced (hexprs e List.mem_cons_self)
        | code pieces =>
            intro other hother
            obtain rfl := List.mem_singleton.mp hother
            refine ⟨fun inner hinner => ?_, fun code hcode => ?_⟩
            · rw [Member.exprs, exprs_simplifyCode] at hinner
              obtain ⟨e, he, rfl⟩ := List.mem_map.mp hinner
              exact hexprs e he
            · obtain rfl := List.mem_singleton.mp hcode
              exact (hcodes pieces List.mem_cons_self).simplify
      intro other hother
      rcases List.mem_append.mp hother with hother | hother
      · exact hfirst other hother
      · exact hrest other hother

/-- An object with the given members, or what is spread in it. -/
theorem objectOf_traced (ho : ∀ n, o = some n → starts n) (h : MembersTraced starts copied members) :
    (objectOf o members).Everywhere (Expr.Traced starts copied) := by
  rcases objectOf_cases o members with hobject | ⟨e, rfl, hinherit⟩
  · rw [hobject]
    refine .mk ⟨ho, fun code hcode => ?_⟩ fun e he => ?_
    · obtain ⟨member, hmember, hcode⟩ := List.mem_flatMap.mp hcode
      exact (h member hmember).2 code hcode
    · obtain ⟨member, hmember, he⟩ := List.mem_flatMap.mp he
      exact (h member hmember).1 e he
  · rw [hinherit]
    exact inherit_traced ((h _ List.mem_cons_self).1 e List.mem_cons_self) ho

theorem simplifyStatements_eq (statements : List Code) : simplifyStatements statements = statements.map simplifyCode := by
  induction statements with
  | nil => rfl
  | cons code statements ih => rw [simplifyStatements, ih, List.map_cons]

/-- The body in the scope of simplified statements, or the body alone. -/
theorem scopeOf_traced {o : Option Nat} {statements : List Code} {body : Expr} (ho : ∀ n, o = some n → starts n)
    (hbody : (simplify body).Everywhere (Expr.Traced starts copied)) (hcopies : ∀ code ∈ statements, code.Copies copied)
    (h : ∀ e ∈ statements.flatMap Code.exprs, (simplify e).Everywhere (Expr.Traced starts copied)) :
    (scopeOf o (simplifyStatements statements) (simplify body)).Everywhere (Expr.Traced starts copied) := by
  rw [simplifyStatements_eq, scopeOf]
  split
  · exact inherit_traced hbody ho
  · refine .mk ⟨ho, fun code hcode => ?_⟩ fun inner hinner => ?_
    · obtain ⟨original, horiginal, rfl⟩ := List.mem_map.mp hcode
      exact (hcopies original horiginal).simplify
    · rcases List.mem_cons.mp hinner with rfl | hinner
      · exact hbody
      · obtain ⟨_, hcode, hinner⟩ := List.mem_flatMap.mp hinner
        obtain ⟨original, horiginal, rfl⟩ := List.mem_map.mp hcode
        rw [exprs_simplifyCode] at hinner
        obtain ⟨e, he, rfl⟩ := List.mem_map.mp hinner
        exact h e (List.mem_flatMap.mpr ⟨original, horiginal, he⟩)

/-- **Simplifying keeps origins right.** -/
theorem simplify_traced (h : e.Everywhere (Expr.Traced starts copied)) :
    (simplify e).Everywhere (Expr.Traced starts copied) := by
  induction h with
  | @mk o form here inside ih =>
      have ho : ∀ n, o = some n → starts n := here.origin
      cases form with
      | null | bool _ | str _ | ident _ => exact .mk here inside
      | index e n =>
          refine .mk ⟨ho, fun code hcode => absurd hcode List.not_mem_nil⟩ fun inner hinner => ?_
          obtain rfl := List.mem_singleton.mp hinner
          exact ih e List.mem_cons_self
      | array elems =>
          have helems := mergeStrings_traced (simplifyElems_traced fun elem helem => ih _ (List.mem_map_of_mem helem))
          refine .mk ⟨ho, fun code hcode => absurd hcode List.not_mem_nil⟩ fun inner hinner => ?_
          obtain ⟨elem, helem, rfl⟩ := List.mem_map.mp hinner
          exact helems elem helem
      | object members =>
          refine objectOf_traced ho (simplifyMembers_traced fun member hmember => ⟨fun e he => ?_, fun code hcode => ?_⟩)
          · exact ih e (List.mem_flatMap.mpr ⟨member, hmember, he⟩)
          · exact here.copies code (List.mem_flatMap.mpr ⟨member, hmember, hcode⟩)
      | call callee arguments =>
          have helems : ElemsTraced starts copied (simplifyElems arguments) :=
            simplifyElems_traced fun elem helem => ih _ (List.mem_cons_of_mem callee (List.mem_map_of_mem helem))
          refine .mk ⟨ho, fun code hcode => absurd hcode List.not_mem_nil⟩ fun inner hinner => ?_
          rcases List.mem_cons.mp hinner with rfl | hinner
          · exact ih callee List.mem_cons_self
          · obtain ⟨elem, helem, rfl⟩ := List.mem_map.mp hinner
            split at helem
            · exact mergeStringsFrom_traced 2 helems elem helem
            · exact helems elem helem
      | arrow parameter body =>
          refine .mk ⟨ho, fun code hcode => absurd hcode List.not_mem_nil⟩ fun inner hinner => ?_
          obtain rfl := List.mem_singleton.mp hinner
          exact ih body List.mem_cons_self
      | scope statements body =>
          exact scopeOf_traced ho (ih body List.mem_cons_self) here.copies fun e he => ih e (List.mem_cons_of_mem body he)
      | code pieces =>
          refine .mk ⟨ho, fun code hcode => ?_⟩ fun inner hinner => ?_
          · obtain rfl := List.mem_singleton.mp hcode
            exact (here.copies pieces List.mem_cons_self).simplify
          · rw [Form.exprs, exprs_simplifyCode] at hinner
            obtain ⟨e, he, rfl⟩ := List.mem_map.mp hinner
            exact ih e he

end Simplified

/-! ## Printing -/

/-- A piece of script that stands somewhere in an expression. -/
inductive Expr.Prints (piece : Piece) : Expr → Prop where
  /-- In the script of the expression itself. -/
  | here {o : Option Nat} {form : Form} {code : Code} (script : code ∈ form.codes) (part : piece ∈ code) :
      Expr.Prints piece (.mk o form)
  /-- In an expression that stands in it. -/
  | inside {o : Option Nat} {form : Form} {e : Expr} (part : e ∈ form.exprs) (rest : Expr.Prints piece e) :
      Expr.Prints piece (.mk o form)

/-- A piece of script, or of an expression in it. -/
def Code.Prints (piece : Piece) (code : Code) : Prop :=
  piece ∈ code ∨ ∃ e ∈ code.exprs, e.Prints piece

variable {starts : Nat → Prop} {copied : String → Nat → Prop} {piece : Piece} {e : Expr} {code : Code}

/-- Text that is copied somewhere in a traced expression was copied from where it says. -/
theorem Expr.Prints.traced {t : String} {o : Nat} (h : e.Prints (.text t (some o)))
    (htraced : e.Everywhere (Expr.Traced starts copied)) : copied t o := by
  induction h with
  | here script part => exact htraced.here.copies _ script t o part
  | inside part rest ih => exact ih (htraced.inside part)

section Layout

variable {part chunks : List Chunk} {form : Form}

theorem infix_parenthesized (needed : Bool) (h : part <:+: chunks) : part <:+: parenthesized needed chunks := by
  unfold parenthesized
  split
  · exact List.infix_cons (List.infix_append_of_infix_left h)
  · exact h

theorem infix_separated {separator : String} {parts : List (List Chunk)} (hmem : chunks ∈ parts)
    (h : part <:+: chunks) : part <:+: separated separator parts := by
  fun_induction separated separator parts with
  | case1 => cases hmem
  | case2 only => exact List.mem_singleton.mp hmem ▸ h
  | case3 first parts _ ih =>
      rcases List.mem_cons.mp hmem with rfl | hmem
      · exact List.infix_append_of_infix_left h
      · exact List.infix_append_of_infix_right (List.infix_cons (ih hmem))

theorem elemLayouts_eq (elems : List Elem) : elemLayouts elems = elems.map Elem.layout := by
  induction elems with
  | nil => rfl
  | cons elem elems ih => rw [elemLayouts, ih, List.map_cons]

theorem memberLayouts_eq (members : List Member) : memberLayouts members = members.map Member.layout := by
  induction members with
  | nil => rfl
  | cons member members ih => rw [memberLayouts, ih, List.map_cons]

theorem infix_elem (elem : Elem) : elem.expr.layout <:+: elem.layout := by
  cases elem with
  | item e => exact List.infix_rfl
  | spread e => exact List.infix_cons (infix_parenthesized _ List.infix_rfl)

theorem infix_elems {elems : List Elem} {elem : Elem} (h : elem ∈ elems) :
    elem.expr.layout <:+: separated ", " (elemLayouts elems) := by
  rw [elemLayouts_eq]
  exact infix_separated (List.mem_map_of_mem h) (infix_elem elem)

theorem infix_piece (h : piece ∈ code) : piece.layout <:+: codeLayout code := by
  induction code with
  | nil => cases h
  | cons first code ih =>
      rcases List.mem_cons.mp h with rfl | h
      · exact List.infix_append_of_infix_left List.infix_rfl
      · exact List.infix_append_of_infix_right (ih h)

theorem infix_codeExpr (h : e ∈ code.exprs) : e.layout <:+: codeLayout code := by
  obtain ⟨piece, hpiece, heq⟩ := List.mem_filterMap.mp h
  cases piece with
  | text t o => exact absurd heq (Option.some_ne_none e).symm
  | expr inner =>
      obtain rfl := Option.some.inj heq
      exact (infix_parenthesized (bindsLoosely inner) List.infix_rfl).trans (infix_piece hpiece)

theorem infix_statement {statements : List Code} (h : code ∈ statements) :
    codeLayout code <:+: statementLayouts statements := by
  induction statements with
  | nil => cases h
  | cons first statements ih =>
      rcases List.mem_cons.mp h with rfl | h
      · have hline : codeLayout code <:+: statementLine (codeLayout code) := by
          unfold statementLine
          split
          · exact List.infix_append_left
          · exact List.infix_append_left
        exact List.infix_append_of_infix_left hline
      · exact List.infix_append_of_infix_right (ih h)

theorem infix_memberExpr {member : Member} (h : e ∈ member.exprs) : e.layout <:+: member.layout := by
  cases member with
  | pair key inner =>
      obtain rfl := List.mem_singleton.mp h
      exact List.infix_cons List.infix_rfl
  | spread inner =>
      obtain rfl := List.mem_singleton.mp h
      exact List.infix_cons (infix_parenthesized _ List.infix_rfl)
  | code pieces => exact infix_codeExpr h

theorem infix_memberCode {member : Member} (h : code ∈ member.codes) : codeLayout code <:+: member.layout := by
  cases member with
  | pair key inner => cases h
  | spread inner => cases h
  | code pieces =>
      obtain rfl := List.mem_singleton.mp h
      exact List.infix_rfl

/-- The script of a form is laid out in it. -/
theorem infix_formCode (h : code ∈ form.codes) : codeLayout code <:+: form.layout := by
  cases form with
  | object members =>
      obtain ⟨member, hmember, hcode⟩ := List.mem_flatMap.mp h
      have hlayout : member.layout ∈ memberLayouts members := memberLayouts_eq members ▸ List.mem_map_of_mem hmember
      exact List.infix_cons (List.infix_append_of_infix_left (infix_separated hlayout (infix_memberCode hcode)))
  | scope statements body =>
      have hstatement : codeLayout code <:+: statementLayouts statements := infix_statement h
      exact List.infix_append_of_infix_left (List.infix_append_of_infix_left (List.infix_cons hstatement))
  | code pieces =>
      obtain rfl := List.mem_singleton.mp h
      exact List.infix_rfl
  | _ => cases h

/-- The expressions of a form are laid out in it. -/
theorem infix_formExpr (h : e ∈ form.exprs) : e.layout <:+: form.layout := by
  cases form with
  | null | bool _ | str _ | ident _ => cases h
  | index inner n =>
      obtain rfl := List.mem_singleton.mp h
      exact List.infix_append_of_infix_left (infix_parenthesized _ List.infix_rfl)
  | array elems =>
      obtain ⟨elem, helem, rfl⟩ := List.mem_map.mp h
      exact List.infix_cons (List.infix_append_of_infix_left (infix_elems helem))
  | object members =>
      obtain ⟨member, hmember, he⟩ := List.mem_flatMap.mp h
      have hlayout : member.layout ∈ memberLayouts members := memberLayouts_eq members ▸ List.mem_map_of_mem hmember
      exact List.infix_cons (List.infix_append_of_infix_left (infix_separated hlayout (infix_memberExpr he)))
  | call callee arguments =>
      rcases List.mem_cons.mp h with rfl | h
      · exact List.infix_append_of_infix_left (List.infix_append_of_infix_left
          (infix_parenthesized _ List.infix_rfl))
      · obtain ⟨elem, helem, rfl⟩ := List.mem_map.mp h
        exact List.infix_append_of_infix_left (List.infix_append_of_infix_right (List.infix_cons (infix_elems helem)))
  | arrow parameter body =>
      obtain rfl := List.mem_singleton.mp h
      exact List.infix_cons (infix_parenthesized _ List.infix_rfl)
  | scope statements body =>
      rcases List.mem_cons.mp h with rfl | h
      · exact List.infix_append_of_infix_left (List.infix_append_of_infix_right (List.infix_cons List.infix_rfl))
      · obtain ⟨code, hcode, he⟩ := List.mem_flatMap.mp h
        have hstatement := (infix_codeExpr he).trans (infix_statement hcode)
        exact List.infix_append_of_infix_left (List.infix_append_of_infix_left (List.infix_cons hstatement))
  | code pieces => exact infix_codeExpr h

/-- **Every piece of script in an expression is printed.** -/
theorem Expr.Prints.layout (h : e.Prints piece) : piece.layout <:+: e.layout := by
  induction h with
  | here script part => exact ((infix_piece part).trans (infix_formCode script)).trans List.infix_append_right
  | inside part rest ih => exact (ih.trans (infix_formExpr part)).trans List.infix_append_right

theorem Code.Prints.layout (h : code.Prints piece) : piece.layout <:+: codeLayout code := by
  rcases h with hpiece | ⟨e, he, hprints⟩
  · exact infix_piece hpiece
  · exact hprints.layout.trans (infix_codeExpr he)

end Layout

/-! ## Marks -/

/-- Chunks whose marks are right. -/
def MarksFrom (starts : Nat → Prop) (chunks : List Chunk) : Prop :=
  ∀ o, .mark o ∈ chunks → starts o

namespace MarksFrom

variable {chunks others : List Chunk}

theorem nil : MarksFrom starts [] :=
  fun _ h => absurd h List.not_mem_nil

theorem text (t : String) (h : MarksFrom starts chunks) : MarksFrom starts (.text t :: chunks) := by
  intro o ho
  rcases List.mem_cons.mp ho with heq | ho
  · exact absurd heq (by simp)
  · exact h o ho

theorem mark {o : Nat} (ho : starts o) (h : MarksFrom starts chunks) : MarksFrom starts (.mark o :: chunks) := by
  intro n hn
  rcases List.mem_cons.mp hn with heq | hn
  · exact Chunk.mark.inj heq ▸ ho
  · exact h n hn

theorem append (h : MarksFrom starts chunks) (h' : MarksFrom starts others) : MarksFrom starts (chunks ++ others) := by
  intro o ho
  rcases List.mem_append.mp ho with ho | ho
  · exact h o ho
  · exact h' o ho

theorem parenthesized (needed : Bool) (h : MarksFrom starts chunks) :
    MarksFrom starts (Program.parenthesized needed chunks) := by
  unfold Program.parenthesized
  split
  · exact (h.text "(").append (nil.text ")")
  · exact h

theorem separated {separator : String} {parts : List (List Chunk)} (h : ∀ part ∈ parts, MarksFrom starts part) :
    MarksFrom starts (Program.separated separator parts) := by
  fun_induction Program.separated separator parts with
  | case1 => exact nil
  | case2 part => exact h part List.mem_cons_self
  | case3 part parts _ ih =>
      exact (h part List.mem_cons_self).append ((ih fun other hother => h other (List.mem_cons_of_mem _ hother)).text _)

/-- The mark of an origin. -/
theorem origin {o : Option Nat} (ho : ∀ n, o = some n → starts n) : MarksFrom starts (marks o) := by
  intro n hn
  cases o with
  | none => cases hn
  | some m =>
      obtain rfl : n = m := by simpa [marks] using hn
      exact ho n rfl

theorem script (hcode : code.Copies fun _ o => starts o) (hexprs : ∀ e ∈ code.exprs, MarksFrom starts e.layout) :
    MarksFrom starts (codeLayout code) := by
  induction code with
  | nil => exact nil
  | cons piece code ih =>
      have hrest := ih (fun t o hmem => hcode t o (List.mem_cons_of_mem _ hmem))
        fun e he => hexprs e (by rw [exprs_cons]; exact List.mem_append_right _ he)
      refine append ?_ hrest
      cases piece with
      | text t o => exact (origin fun n hn => hcode t n (by rw [hn]; exact List.mem_cons_self)).append (nil.text t)
      | expr e => exact parenthesized _ (hexprs e List.mem_cons_self)

theorem statements {statements : List Code} (hcodes : ∀ code ∈ statements, code.Copies fun _ o => starts o)
    (hexprs : ∀ e ∈ statements.flatMap Code.exprs, MarksFrom starts e.layout) :
    MarksFrom starts (statementLayouts statements) := by
  induction statements with
  | nil => exact nil
  | cons first statements ih =>
      have hfirst : MarksFrom starts (codeLayout first) :=
        script (hcodes first List.mem_cons_self) fun e he => hexprs e (List.mem_append_left _ he)
      refine append ?_ (ih (fun code hcode => hcodes code (List.mem_cons_of_mem _ hcode))
        fun e he => hexprs e (List.mem_append_right _ he))
      unfold statementLine
      split
      · exact hfirst.append (nil.text "\n")
      · exact hfirst.append (nil.text ";\n")

theorem elem {elem : Elem} (h : MarksFrom starts elem.expr.layout) : MarksFrom starts elem.layout := by
  cases elem with
  | item e => exact h
  | spread e => exact (parenthesized _ h).text "..."

theorem elems {elems : List Elem} (h : ∀ elem ∈ elems, MarksFrom starts elem.expr.layout) :
    MarksFrom starts (Program.separated ", " (elemLayouts elems)) := by
  refine separated fun part hpart => ?_
  rw [elemLayouts_eq] at hpart
  obtain ⟨one, hone, rfl⟩ := List.mem_map.mp hpart
  exact elem (h one hone)

theorem members {members : List Member} (hexprs : ∀ e ∈ members.flatMap Member.exprs, MarksFrom starts e.layout)
    (hcodes : ∀ code ∈ members.flatMap Member.codes, code.Copies fun _ o => starts o) :
    MarksFrom starts (Program.separated ", " (memberLayouts members)) := by
  refine separated fun part hpart => ?_
  rw [memberLayouts_eq] at hpart
  obtain ⟨member, hmember, rfl⟩ := List.mem_map.mp hpart
  have hinner : ∀ e ∈ member.exprs, MarksFrom starts e.layout :=
    fun e he => hexprs e (List.mem_flatMap.mpr ⟨member, hmember, he⟩)
  cases member with
  | pair key e => exact (hinner e List.mem_cons_self).text _
  | spread e => exact (parenthesized _ (hinner e List.mem_cons_self)).text "..."
  | code pieces => exact script (hcodes pieces (List.mem_flatMap.mpr ⟨_, hmember, List.mem_cons_self⟩)) hinner

end MarksFrom

/-- **The marks of a traced expression are right.** -/
theorem Expr.Everywhere.marksFrom (hstarts : ∀ t o, copied t o → starts o)
    (h : e.Everywhere (Expr.Traced starts copied)) : MarksFrom starts e.layout := by
  induction h with
  | @mk o form here inside ih =>
      have hcodes : ∀ code ∈ form.codes, code.Copies fun _ o => starts o :=
        fun code hcode t o hmem => hstarts t o (here.copies code hcode t o hmem)
      refine (MarksFrom.origin here.origin).append ?_
      cases form with
      | null | bool _ | str _ | ident _ => exact MarksFrom.nil.text _
      | index e n => exact (MarksFrom.parenthesized _ (ih e List.mem_cons_self)).append (MarksFrom.nil.text _)
      | array elems =>
          exact ((MarksFrom.elems fun elem helem => ih _ (List.mem_map_of_mem helem)).text _).append (MarksFrom.nil.text _)
      | object members => exact ((MarksFrom.members ih hcodes).text _).append (MarksFrom.nil.text _)
      | call callee arguments =>
          have hcallee := MarksFrom.parenthesized (bindsLoosely callee) (ih callee List.mem_cons_self)
          have harguments : MarksFrom starts (separated ", " (elemLayouts arguments)) :=
            MarksFrom.elems fun elem helem => ih _ (List.mem_cons_of_mem callee (List.mem_map_of_mem helem))
          exact (hcallee.append (harguments.text _)).append (MarksFrom.nil.text _)
      | arrow parameter body => exact (MarksFrom.parenthesized _ (ih body List.mem_cons_self)).text _
      | scope statements body =>
          have hstatements := MarksFrom.statements hcodes fun e he => ih e (List.mem_cons_of_mem body he)
          have hbody := (ih body List.mem_cons_self).text "return "
          exact ((hstatements.text _).append hbody).append (MarksFrom.nil.text _)
      | code pieces => exact MarksFrom.script (hcodes pieces List.mem_cons_self) ih

end ComponentMarkup.Program
