import ComponentMarkup.Proofs.Program.Traced

/-!
# Simplified expressions are normal

Every rewriting can make room for another: a scope without statements may leave an array that is then spliced, what
is spliced may put two strings side by side, and the only spread of an object may leave the factory as what is
called.  As the inside is simplified before the outside, one pass is enough all the same: what is put in the place
of an expression is normal already, and nothing that a normal expression holds is rewritten.

* `Expr.IsNormal` — an expression to which no rewriting applies;
* `Expr.byParts` — induction on the expressions that stand directly in an expression;
* `simplify_everywhere` — a simplified expression is normal everywhere;
* `simplify_of_normal` — simplifying leaves an expression alone that is normal everywhere;
* `simplify_normal` — so simplifying twice is simplifying once.
-/

namespace ComponentMarkup.Program

variable {e : Expr} {o : Option Nat} {elem : Elem} {elems : List Elem} {member : Member} {members : List Member}
  {code : Code} {statements : List Code} {form : Form}

/-! ## Normal expressions -/

/-- Whether an element is a string literal. -/
def Elem.isStr : Elem → Bool
  | .item e => e.isStr
  | .spread _ => false

/-- Whether an element is a spread of an array literal. -/
def Elem.isArraySpread : Elem → Bool
  | .spread (.mk _ (.array _)) => true
  | _ => false

/-- Whether a member is a spread of an object literal. -/
def Member.isObjectSpread : Member → Bool
  | .spread (.mk _ (.object _)) => true
  | _ => false

/-- No two string literals stand side by side. -/
def StringsApart (elems : List Elem) : Prop :=
  elems.IsChain fun a b => ¬ (a.isStr = true ∧ b.isStr = true)

/-- **An expression to which no rewriting applies**, whatever stands in it.  No spread stands for a literal, an
object is more than a single spread, a scope has statements, and no strings stand side by side in an array or among
the children of an element. -/
def Expr.IsNormal : Expr → Prop
  | .mk _ (.array elems) => (∀ elem ∈ elems, elem.isArraySpread = false) ∧ StringsApart elems
  | .mk _ (.call callee arguments) => (∀ elem ∈ arguments, elem.isArraySpread = false) ∧
      (callee.form = .ident Expr.factoryName → StringsApart (arguments.drop 2))
  | .mk _ (.object members) => (∀ member ∈ members, member.isObjectSpread = false) ∧ ∀ e, members ≠ [.spread e]
  | .mk _ (.scope statements _) => statements ≠ []
  | _ => True

theorem Elem.isStr_iff : elem.isStr = true ↔ ∃ o s, elem = .item (.mk o (.str s)) := by
  constructor
  · intro h
    cases elem with
    | spread e => exact Bool.noConfusion h
    | item e =>
        obtain ⟨o, form⟩ := e
        cases form with
        | str s => exact ⟨o, s, rfl⟩
        | _ => exact Bool.noConfusion h
  · rintro ⟨o, s, rfl⟩
    rfl

theorem isFactory_iff : isFactory e = true ↔ e.form = .ident Expr.factoryName := by
  obtain ⟨o, form⟩ := e
  cases form <;> simp [isFactory, Expr.form]

/-- A spread that stands for itself. -/
theorem spreadElems_self (h : (Elem.spread e).isArraySpread = false) : spreadElems e = [.spread e] := by
  obtain ⟨o, form⟩ := e
  cases form with
  | array elems => exact Bool.noConfusion h
  | _ => rfl

/-- A spread that stands for itself. -/
theorem spreadMembers_self (h : (Member.spread e).isObjectSpread = false) : spreadMembers e = [.spread e] := by
  obtain ⟨o, form⟩ := e
  cases form with
  | object members => exact Bool.noConfusion h
  | _ => rfl

/-! ## Induction on the parts of expressions -/

theorem sizeOf_codeExpr (h : e ∈ code.exprs) : sizeOf e < sizeOf code := by
  obtain ⟨piece, hpiece, heq⟩ := List.mem_filterMap.mp h
  have hlt := List.sizeOf_lt_of_mem hpiece
  cases piece with
  | text t o => exact absurd heq (Option.some_ne_none e).symm
  | expr inner =>
      obtain rfl := Option.some.inj heq
      simp only [Piece.expr.sizeOf_spec] at hlt
      omega

theorem sizeOf_elemExpr (h : e ∈ elems.map Elem.expr) : sizeOf e < sizeOf elems := by
  obtain ⟨elem, helem, rfl⟩ := List.mem_map.mp h
  have hlt := List.sizeOf_lt_of_mem helem
  cases elem with
  | item e =>
      simp only [Elem.item.sizeOf_spec] at hlt
      simp only [Elem.expr]
      omega
  | spread e =>
      simp only [Elem.spread.sizeOf_spec] at hlt
      simp only [Elem.expr]
      omega

theorem sizeOf_memberExpr (h : e ∈ members.flatMap Member.exprs) : sizeOf e < sizeOf members := by
  obtain ⟨member, hmember, he⟩ := List.mem_flatMap.mp h
  have hlt := List.sizeOf_lt_of_mem hmember
  cases member with
  | pair key value =>
      obtain rfl := List.mem_singleton.mp he
      simp only [Member.pair.sizeOf_spec] at hlt
      omega
  | spread inner =>
      obtain rfl := List.mem_singleton.mp he
      simp only [Member.spread.sizeOf_spec] at hlt
      omega
  | code pieces =>
      have hpieces : sizeOf e < sizeOf pieces := sizeOf_codeExpr he
      simp only [Member.code.sizeOf_spec] at hlt
      omega

theorem sizeOf_statementExpr (h : e ∈ statements.flatMap Code.exprs) : sizeOf e < sizeOf statements := by
  obtain ⟨code, hcode, he⟩ := List.mem_flatMap.mp h
  exact (sizeOf_codeExpr he).trans (List.sizeOf_lt_of_mem hcode)

/-- What stands directly in a form is smaller. -/
theorem sizeOf_formExpr (h : e ∈ form.exprs) : sizeOf e < sizeOf form := by
  cases form with
  | null | bool _ | str _ | ident _ => cases h
  | index inner n =>
      obtain rfl := List.mem_singleton.mp h
      simp only [Form.index.sizeOf_spec]
      omega
  | array elems =>
      have hlt := sizeOf_elemExpr h
      simp only [Form.array.sizeOf_spec]
      omega
  | object members =>
      have hlt := sizeOf_memberExpr h
      simp only [Form.object.sizeOf_spec]
      omega
  | call callee arguments =>
      simp only [Form.call.sizeOf_spec]
      rcases List.mem_cons.mp h with rfl | h
      · omega
      · have hlt := sizeOf_elemExpr h
        omega
  | arrow parameter body =>
      obtain rfl := List.mem_singleton.mp h
      simp only [Form.arrow.sizeOf_spec]
      omega
  | scope statements body =>
      simp only [Form.scope.sizeOf_spec]
      rcases List.mem_cons.mp h with rfl | h
      · omega
      · have hlt : sizeOf e < sizeOf statements := sizeOf_statementExpr h
        omega
  | code pieces =>
      have hlt : sizeOf e < sizeOf pieces := sizeOf_codeExpr h
      simp only [Form.code.sizeOf_spec]
      omega

/-- All expressions have a property that an expression has if those that stand directly in it do. -/
theorem Expr.byParts {P : Expr → Prop} (h : ∀ o form, (∀ e ∈ form.exprs, P e) → P (.mk o form)) (e : Expr) : P e := by
  obtain ⟨o, form⟩ := e
  exact h o form fun inner hinner => Expr.byParts h inner
termination_by sizeOf e
decreasing_by
  have hlt := sizeOf_formExpr hinner
  simp only [Expr.mk.sizeOf_spec]
  omega

/-! ## Joining strings -/

/-- Joining puts string literals in the place of string literals and keeps all else. -/
theorem mem_mergeStrings (h : elem ∈ mergeStrings elems) : elem ∈ elems ∨ elem.isStr = true := by
  induction elems with
  | nil => exact .inl h
  | cons first elems ih =>
      rcases mergeStrings_cases first elems with hkept | ⟨o, s, o', t, rest, rfl, hmerged, hjoined⟩
      · rw [hkept] at h
        rcases List.mem_cons.mp h with rfl | h
        · exact .inl List.mem_cons_self
        · exact (ih h).imp_left (List.mem_cons_of_mem first)
      · rw [hjoined] at h
        rcases List.mem_cons.mp h with rfl | h
        · exact .inr rfl
        · rw [hmerged] at ih
          exact (ih (List.mem_cons_of_mem _ h)).imp_left (List.mem_cons_of_mem _)

/-- Joining leaves no string literals side by side. -/
theorem mergeStrings_apart (elems : List Elem) : StringsApart (mergeStrings elems) := by
  induction elems with
  | nil => exact .nil
  | cons first elems ih =>
      rw [mergeStrings.eq_def (first :: elems)]
      dsimp only
      split
      · -- the joined literal takes the place of one that nothing can be joined to either
        rename_i hmerged
        rw [hmerged] at ih
        cases ih with
        | singleton => exact .singleton _
        | cons_cons hnext hrest => exact .cons_cons hnext hrest
      · rename_i hno
        cases hmerged : mergeStrings elems with
        | nil => exact .singleton _
        | cons next rest =>
            rw [hmerged] at ih
            refine .cons_cons (fun ⟨hfirst, hnext⟩ => ?_) ih
            obtain ⟨o, s, rfl⟩ := Elem.isStr_iff.mp hfirst
            obtain ⟨o', t, rfl⟩ := Elem.isStr_iff.mp hnext
            exact hno o s o' t rest rfl hmerged

/-- Where no string literals stand side by side, nothing is joined. -/
theorem mergeStrings_of_apart (h : StringsApart elems) : mergeStrings elems = elems := by
  induction elems with
  | nil => rfl
  | cons first elems ih =>
      have hrest := ih h.tail
      rcases mergeStrings_cases first elems with hkept | ⟨o, s, o', t, rest, rfl, hmerged, _⟩
      · rw [hkept, hrest]
      · obtain rfl : elems = .item (.mk o' (.str t)) :: rest := hrest.symm.trans hmerged
        exact absurd ⟨rfl, rfl⟩ h.rel

theorem drop_mergeStringsFrom (n : Nat) (elems : List Elem) :
    (mergeStringsFrom n elems).drop n = mergeStrings (elems.drop n) := by
  unfold mergeStringsFrom
  rcases Nat.le_total n elems.length with hle | hle
  · rw [List.drop_append_of_le_length (by rw [List.length_take]; omega),
      List.drop_eq_nil_of_le (List.length_take_le n elems), List.nil_append]
  · have hnone : elems.drop n = [] := List.drop_eq_nil_of_le hle
    rw [hnone, mergeStrings, List.append_nil]
    exact List.drop_eq_nil_of_le (List.length_take_le n elems)

theorem mem_mergeStringsFrom {n : Nat} (h : elem ∈ mergeStringsFrom n elems) : elem ∈ elems ∨ elem.isStr = true := by
  rcases List.mem_append.mp h with h | h
  · exact .inl (List.mem_of_mem_take h)
  · exact (mem_mergeStrings h).imp_left List.mem_of_mem_drop

/-! ## Simplifying gives normal expressions -/

/-- Elements that are normal everywhere, none of them a spread of a literal. -/
def ElemsNormal (elems : List Elem) : Prop :=
  ∀ elem ∈ elems, elem.expr.Everywhere Expr.IsNormal ∧ elem.isArraySpread = false

/-- Members that are normal everywhere, none of them a spread of a literal. -/
def MembersNormal (members : List Member) : Prop :=
  ∀ member ∈ members, (∀ e ∈ member.exprs, e.Everywhere Expr.IsNormal) ∧ member.isObjectSpread = false

/-- A string literal is normal everywhere. -/
theorem Elem.normal_of_isStr (h : elem.isStr = true) :
    elem.expr.Everywhere Expr.IsNormal ∧ elem.isArraySpread = false := by
  obtain ⟨o, s, rfl⟩ := Elem.isStr_iff.mp h
  exact ⟨.mk trivial fun inner hinner => absurd hinner List.not_mem_nil, rfl⟩

theorem ElemsNormal.mergeStrings (h : ElemsNormal elems) : ElemsNormal (mergeStrings elems) :=
  fun elem helem => (mem_mergeStrings helem).elim (h elem) Elem.normal_of_isStr

theorem ElemsNormal.mergeStringsFrom (n : Nat) (h : ElemsNormal elems) : ElemsNormal (mergeStringsFrom n elems) :=
  fun elem helem => (mem_mergeStringsFrom helem).elim (h elem) Elem.normal_of_isStr

/-- What takes the place of a spread is normal. -/
theorem spreadElems_normal (h : e.Everywhere Expr.IsNormal) : ElemsNormal (spreadElems e) := by
  cases hspread : (Elem.spread e).isArraySpread with
  | false =>
      rw [spreadElems_self hspread]
      intro elem helem
      obtain rfl := List.mem_singleton.mp helem
      exact ⟨h, hspread⟩
  | true =>
      obtain ⟨o, form⟩ := e
      cases form with
      | array elems => exact fun elem helem => ⟨h.inside (List.mem_map_of_mem helem), h.here.1 elem helem⟩
      | _ => exact Bool.noConfusion hspread

theorem spreadMembers_normal (h : e.Everywhere Expr.IsNormal) : MembersNormal (spreadMembers e) := by
  cases hspread : (Member.spread e).isObjectSpread with
  | false =>
      rw [spreadMembers_self hspread]
      intro member hmember
      obtain rfl := List.mem_singleton.mp hmember
      exact ⟨fun inner hinner => List.mem_singleton.mp hinner ▸ h, hspread⟩
  | true =>
      obtain ⟨o, form⟩ := e
      cases form with
      | object members =>
          exact fun member hmember =>
            ⟨fun inner hinner => h.inside (List.mem_flatMap.mpr ⟨member, hmember, hinner⟩), h.here.1 member hmember⟩
      | _ => exact Bool.noConfusion hspread

theorem simplifyElems_normal (h : ∀ elem ∈ elems, (simplify elem.expr).Everywhere Expr.IsNormal) :
    ElemsNormal (simplifyElems elems) := by
  induction elems with
  | nil => exact fun elem helem => absurd helem List.not_mem_nil
  | cons first elems ih =>
      have hrest := ih fun elem helem => h elem (List.mem_cons_of_mem _ helem)
      have hfirst := h first List.mem_cons_self
      intro elem helem
      rcases List.mem_append.mp helem with helem | helem
      · cases first with
        | item e =>
            obtain rfl := List.mem_singleton.mp helem
            exact ⟨hfirst, rfl⟩
        | spread e => exact spreadElems_normal hfirst elem helem
      · exact hrest elem helem

theorem simplifyMembers_normal
    (h : ∀ e ∈ members.flatMap Member.exprs, (simplify e).Everywhere Expr.IsNormal) :
    MembersNormal (simplifyMembers members) := by
  induction members with
  | nil => exact fun member hmember => absurd hmember List.not_mem_nil
  | cons first members ih =>
      rw [List.flatMap_cons] at h
      have hrest := ih fun e he => h e (List.mem_append_right _ he)
      have hfirst : ∀ e ∈ first.exprs, (simplify e).Everywhere Expr.IsNormal :=
        fun e he => h e (List.mem_append_left _ he)
      intro member hmember
      rcases List.mem_append.mp hmember with hmember | hmember
      · cases first with
        | pair key e =>
            obtain rfl := List.mem_singleton.mp hmember
            exact ⟨fun inner hinner => List.mem_singleton.mp hinner ▸ hfirst e List.mem_cons_self, rfl⟩
        | spread e => exact spreadMembers_normal (hfirst e List.mem_cons_self) member hmember
        | code pieces =>
            obtain rfl := List.mem_singleton.mp hmember
            refine ⟨fun inner hinner => ?_, rfl⟩
            rw [Member.exprs, exprs_simplifyCode] at hinner
            obtain ⟨e, he, rfl⟩ := List.mem_map.mp hinner
            exact hfirst e he
      · exact hrest member hmember

/-- Where an expression stems from does not matter to whether it is normal. -/
theorem inherit_normal (h : e.Everywhere Expr.IsNormal) : (e.inherit o).Everywhere Expr.IsNormal := by
  obtain ⟨o', form⟩ := e
  have hhere : ((Expr.mk o' form).inherit o).IsNormal := by
    cases form <;> exact h.here
  exact .mk hhere fun inner hinner => h.inside hinner

/-- The object with normal members is normal, and so is what takes its place. -/
theorem objectOf_normal (h : MembersNormal members) : (objectOf o members).Everywhere Expr.IsNormal := by
  rcases objectOf_cases o members with hobject | ⟨e, rfl, hinherit⟩
  · rw [hobject]
    refine .mk ⟨fun member hmember => (h member hmember).2, ?_⟩ fun e he => ?_
    · -- a single spread would have taken the place of the object
      rintro e rfl
      cases e with
      | mk o' form =>
          have hsame : form = .object [.spread (.mk o' form)] := congrArg Expr.form hobject
          have hno := (h _ List.mem_cons_self).2
          rw [hsame] at hno
          exact Bool.noConfusion hno
    · obtain ⟨member, hmember, he⟩ := List.mem_flatMap.mp he
      exact (h member hmember).1 e he
  · rw [hinherit]
    exact inherit_normal ((h _ List.mem_cons_self).1 e List.mem_cons_self)

/-- A scope of simplified statements is normal, and so is the body that takes the place of an empty one. -/
theorem scopeOf_normal {body : Expr} (hbody : (simplify body).Everywhere Expr.IsNormal)
    (h : ∀ e ∈ statements.flatMap Code.exprs, (simplify e).Everywhere Expr.IsNormal) :
    (scopeOf o (simplifyStatements statements) (simplify body)).Everywhere Expr.IsNormal := by
  rw [scopeOf]
  split
  · exact inherit_normal hbody
  · rename_i hsome
    refine .mk (fun hnone => hsome (List.isEmpty_iff.mpr hnone)) fun inner hinner => ?_
    rcases List.mem_cons.mp hinner with rfl | hinner
    · exact hbody
    · rw [simplifyStatements_eq] at hinner
      obtain ⟨_, hcode, hinner⟩ := List.mem_flatMap.mp hinner
      obtain ⟨original, horiginal, rfl⟩ := List.mem_map.mp hcode
      rw [exprs_simplifyCode] at hinner
      obtain ⟨e, he, rfl⟩ := List.mem_map.mp hinner
      exact h e (List.mem_flatMap.mpr ⟨original, horiginal, he⟩)

/-- A call of simplified arguments is normal. -/
theorem callOf_normal {callee : Expr} (hcallee : callee.Everywhere Expr.IsNormal) (h : ElemsNormal elems) :
    (callOf o callee elems).Everywhere Expr.IsNormal := by
  have hcall {arguments : List Elem} (hnormal : ElemsNormal arguments)
      (hapart : callee.form = .ident Expr.factoryName → StringsApart (arguments.drop 2)) :
      (Expr.mk o (.call callee arguments)).Everywhere Expr.IsNormal := by
    refine .mk ⟨fun elem helem => (hnormal elem helem).2, hapart⟩ fun inner hinner => ?_
    rcases List.mem_cons.mp hinner with rfl | hinner
    · exact hcallee
    · obtain ⟨elem, helem, rfl⟩ := List.mem_map.mp hinner
      exact (hnormal elem helem).1
  unfold callOf
  split
  · refine hcall (h.mergeStringsFrom 2) fun _ => ?_
    rw [drop_mergeStringsFrom]
    exact mergeStrings_apart _
  · rename_i hother
    exact hcall h fun hfactory => absurd (isFactory_iff.mpr hfactory) hother

/-- **A simplified expression is normal everywhere.** -/
theorem simplify_everywhere (e : Expr) : (simplify e).Everywhere Expr.IsNormal := by
  induction e using Expr.byParts with
  | h o form ih =>
      cases form with
      | null | bool _ | str _ | ident _ => exact .mk trivial fun inner hinner => absurd hinner List.not_mem_nil
      | index e n => exact .mk trivial fun inner hinner => List.mem_singleton.mp hinner ▸ ih e List.mem_cons_self
      | array elems =>
          have hnormal := (simplifyElems_normal fun elem helem => ih _ (List.mem_map_of_mem helem)).mergeStrings
          refine .mk ⟨fun elem helem => (hnormal elem helem).2, mergeStrings_apart _⟩ fun inner hinner => ?_
          obtain ⟨elem, helem, rfl⟩ := List.mem_map.mp hinner
          exact (hnormal elem helem).1
      | object members => exact objectOf_normal (simplifyMembers_normal ih)
      | call callee arguments =>
          exact callOf_normal (ih callee List.mem_cons_self)
            (simplifyElems_normal fun elem helem => ih _ (List.mem_cons_of_mem _ (List.mem_map_of_mem helem)))
      | arrow parameter body =>
          exact .mk trivial fun inner hinner => List.mem_singleton.mp hinner ▸ ih body List.mem_cons_self
      | scope statements body =>
          exact scopeOf_normal (ih body List.mem_cons_self) fun e he => ih e (List.mem_cons_of_mem body he)
      | code pieces =>
          refine .mk trivial fun inner hinner => ?_
          rw [Form.exprs, exprs_simplifyCode] at hinner
          obtain ⟨e, he, rfl⟩ := List.mem_map.mp hinner
          exact ih e he

/-! ## Simplifying leaves normal expressions alone -/

theorem simplifyCode_self (h : ∀ e ∈ code.exprs, simplify e = e) : simplifyCode code = code := by
  induction code with
  | nil => rfl
  | cons piece code ih =>
      rw [exprs_cons] at h
      have hpiece : simplifyPiece piece = piece := by
        cases piece with
        | text t o => rfl
        | expr e => exact congrArg Piece.expr (h e (by simp))
      rw [simplifyCode, hpiece, ih fun e he => h e (List.mem_append_right _ he)]

theorem simplifyStatements_self (h : ∀ e ∈ statements.flatMap Code.exprs, simplify e = e) :
    simplifyStatements statements = statements := by
  induction statements with
  | nil => rfl
  | cons code statements ih =>
      rw [List.flatMap_cons] at h
      rw [simplifyStatements, simplifyCode_self fun e he => h e (List.mem_append_left _ he),
        ih fun e he => h e (List.mem_append_right _ he)]

theorem simplifyElems_self (h : ∀ elem ∈ elems, simplify elem.expr = elem.expr ∧ elem.isArraySpread = false) :
    simplifyElems elems = elems := by
  induction elems with
  | nil => rfl
  | cons first elems ih =>
      obtain ⟨hexpr, hspread⟩ := h first List.mem_cons_self
      have hfirst : simplifyElem first = [first] := by
        cases first with
        | item e => exact congrArg (fun e => [Elem.item e]) hexpr
        | spread e => exact (congrArg spreadElems hexpr).trans (spreadElems_self hspread)
      rw [simplifyElems, hfirst, ih fun elem helem => h elem (List.mem_cons_of_mem _ helem), List.singleton_append]

theorem simplifyMembers_self (h : ∀ e ∈ members.flatMap Member.exprs, simplify e = e)
    (hspread : ∀ member ∈ members, member.isObjectSpread = false) : simplifyMembers members = members := by
  induction members with
  | nil => rfl
  | cons first members ih =>
      rw [List.flatMap_cons] at h
      have hexprs : ∀ e ∈ first.exprs, simplify e = e := fun e he => h e (List.mem_append_left _ he)
      have hfirst : simplifyMember first = [first] := by
        cases first with
        | pair key e => exact congrArg (fun e => [Member.pair key e]) (hexprs e List.mem_cons_self)
        | spread e =>
            exact (congrArg spreadMembers (hexprs e List.mem_cons_self)).trans
              (spreadMembers_self (hspread _ List.mem_cons_self))
        | code pieces => exact congrArg (fun code => [Member.code code]) (simplifyCode_self hexprs)
      rw [simplifyMembers, hfirst, ih (fun e he => h e (List.mem_append_right _ he))
        fun member hmember => hspread member (List.mem_cons_of_mem _ hmember), List.singleton_append]

/-- **Simplifying leaves an expression alone that is normal everywhere.** -/
theorem simplify_of_normal (h : e.Everywhere Expr.IsNormal) : simplify e = e := by
  induction h with
  | @mk o form here inside ih =>
      cases form with
      | null | bool _ | str _ | ident _ => rfl
      | index e n =>
          rw [simplify, simplifyForm, ih e List.mem_cons_self]
      | array elems =>
          have helems : simplifyElems elems = elems :=
            simplifyElems_self fun elem helem => ⟨ih _ (List.mem_map_of_mem helem), here.1 elem helem⟩
          rw [simplify, simplifyForm, helems, mergeStrings_of_apart here.2]
      | object members =>
          rw [simplify, simplifyForm, simplifyMembers_self ih here.1]
          rcases objectOf_cases o members with hobject | ⟨e, rfl, _⟩
          · exact hobject
          · exact absurd rfl (here.2 e)
      | call callee arguments =>
          have harguments : simplifyElems arguments = arguments := simplifyElems_self fun elem helem =>
            ⟨ih _ (List.mem_cons_of_mem _ (List.mem_map_of_mem helem)), here.1 elem helem⟩
          rw [simplify, simplifyForm, ih callee List.mem_cons_self, harguments, callOf]
          split
          · rename_i hfactory
            have hapart := here.2 (isFactory_iff.mp hfactory)
            rw [mergeStringsFrom, mergeStrings_of_apart hapart, List.take_append_drop]
          · rfl
      | arrow parameter body =>
          rw [simplify, simplifyForm, ih body List.mem_cons_self]
      | scope statements body =>
          have hstatements : simplifyStatements statements = statements :=
            simplifyStatements_self fun e he => ih e (List.mem_cons_of_mem body he)
          rw [simplify, simplifyForm, ih body List.mem_cons_self, hstatements, scopeOf, if_neg]
          exact fun hnone => here (List.isEmpty_iff.mp hnone)
      | code pieces =>
          rw [simplify, simplifyForm, simplifyCode_self ih]

/-- **Simplifying reaches a normal form in one pass.**  Whatever the expression, simplifying it once more changes
nothing, and everywhere in the simplified expression, between pieces of script too, no spread stands for a literal,
no object is a single spread, no scope is without statements, and no strings that could be joined stand side by
side. -/
theorem simplify_normal (e : Expr) :
    simplify (simplify e) = simplify e ∧ (simplify e).Everywhere Expr.IsNormal :=
  ⟨simplify_of_normal (simplify_everywhere e), simplify_everywhere e⟩

end ComponentMarkup.Program
