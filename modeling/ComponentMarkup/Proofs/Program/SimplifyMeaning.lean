import ComponentMarkup.Proofs.Program.Everywhere
import ComponentMarkup.Proofs.Program.Meaning

/-!
# Simplifying keeps the meaning

An expression means the same before and after it is simplified, for every interpretation of what simplifying
does not look into, and for every monad that computations run in: spreads are spliced where their values are,
later keys win as before, and strings are joined only where values are taken up to concatenation.  Two things are
asked of the expression.  What is spread into an object is an object, since it may become the object itself.  And
the name and the properties of an element are single values.  An interpretation may take the arguments of functions
up to concatenation, like arrays and children.  If it does not, the elements of an array literal, whose strings are
joined before they are spliced, do not become arguments.

* `mergeStrings_meaning`, `spreadElems_meaning`, `spreadMembers_meaning`, `objectOf_meaning` — each rewriting alone;
* `unflattened_meaning`, `children_meaning`, `arguments_meaning`, `call_meaning` — arguments, exactly, from the third on
  up to concatenation, all up to concatenation, and calls;
* `Expr.Everywhere.simplified` — an expression that fits everywhere means the same when it is simplified.
-/

namespace ComponentMarkup.Program

variable {m : Type → Type} [Monad m] {Env α β γ δ : Type}

/-- Every result of a computation satisfies a property. -/
def Always (p : γ → Prop) (x : m γ) : Prop :=
  ∃ y : m { a // p a }, Subtype.val <$> y = x

/-! ## What simplifying relies on -/

/-- A value that is an object, each key of which has one value. -/
def Value.IsObject : Value α → Prop
  | .object entries => (keys entries).Nodup
  | _ => False

/-- Whether an element is a single value. -/
def Elem.isItem : Elem → Bool
  | .item _ => true
  | .spread _ => false

/-- Whether an element is a spread in whose place the elements of an array literal are put. -/
def Elem.isFlattened : Elem → Bool
  | .item _ => false
  | .spread e =>
    match (simplify e).form with
    | .array _ => true
    | _ => false

namespace Interpretation

variable (S : Interpretation m Env α)

/-- An expression whose values are objects. -/
def GivesObject (e : Expr) : Prop :=
  ∀ env, Always Value.IsObject (e.meaning S env)

/-- An expression that stands for the element factory. -/
def GivesFactory (e : Expr) : Prop :=
  ∀ env, e.meaning S env = pure .factory

/-- A function that takes all its arguments up to concatenation. -/
def JoinsArguments (function : Value α) : Prop :=
  ∀ arguments, S.apply function (joined arguments) = S.apply function arguments

/-- A function that takes its arguments from the third on up to concatenation, as the factory takes children. -/
def JoinsChildren (function : Value α) : Prop :=
  ∀ arguments, S.apply function (arguments.take 2 ++ joined (arguments.drop 2)) = S.apply function arguments

/-- A call that may be simplified. -/
inductive CallFits (callee : Expr) (arguments : List Elem) : Prop where
  /-- The name and the properties of an element are single values. -/
  | element (joins : ∀ env, Always S.JoinsChildren (callee.meaning S env))
      (items : ∀ elem ∈ arguments.take 2, elem.isItem)
  /-- All arguments are taken up to concatenation. -/
  | joins (joins : ∀ env, Always S.JoinsArguments (callee.meaning S env))
  /-- No strings are joined, and no elements of an array literal become arguments. -/
  | apart (other : ¬ S.GivesFactory callee) (unflattened : ∀ elem ∈ arguments, ¬ elem.isFlattened)

/-- An expression whose call is of a kind, or into whose object only objects are spread.  Nothing is asked of others,
nor of what stands in an expression. -/
def FitsBy (calls : Expr → List Elem → Prop) : Expr → Prop
  | .mk _ (.call callee arguments) => calls callee arguments
  | .mk _ (.object members) => ∀ e, .spread e ∈ members → S.GivesObject e
  | _ => True

/-- An expression that may be simplified. -/
def Fits : Expr → Prop :=
  S.FitsBy S.CallFits

/-- All functions take their arguments up to concatenation, as arrays have their values. -/
def JoinsCalls : Prop :=
  ∀ callee arguments, S.call callee (joined arguments) = S.call callee arguments

/-- An expression in which elements have single values as their name and properties. -/
def ElementFits : Expr → Prop :=
  S.FitsBy fun callee arguments =>
    (∀ env, Always (· ≠ .factory) (callee.meaning S env)) ∨ ∀ elem ∈ arguments.take 2, elem.isItem

end Interpretation

/-- Simplifying an expression does not change its meaning. -/
def Kept (S : Interpretation m Env α) (e : Expr) : Prop :=
  (simplify e).meaning S = e.meaning S

variable {S : Interpretation m Env α} {env : Env} {e : Expr}

/-! ## Script and statements -/

theorem code_meaning {code : Code} (h : ∀ e ∈ code.exprs, Kept S e) :
    codeMeaning S (simplifyCode code) = codeMeaning S code := by
  induction code with
  | nil => rfl
  | cons piece code ih =>
      rw [exprs_cons] at h
      have hpiece : (simplifyPiece piece).meaning S = piece.meaning S := by
        cases piece with
        | text t o => rfl
        | expr e => exact congrArg Fragment.value (h e (by simp))
      rw [simplifyCode, codeMeaning, codeMeaning, hpiece, ih fun e he => h e (List.mem_append_right _ he)]

theorem statements_meaning {statements : List Code} (h : ∀ e ∈ statements.flatMap Code.exprs, Kept S e) :
    statementsMeaning S (simplifyStatements statements) = statementsMeaning S statements := by
  induction statements with
  | nil => rfl
  | cons code statements ih =>
      have hcode : codeMeaning S (simplifyCode code) = codeMeaning S code :=
        code_meaning fun e he => h e (List.mem_append_left _ he)
      funext env
      rw [simplifyStatements, statementsMeaning, statementsMeaning, hcode,
        ih fun e he => h e (List.mem_append_right _ he)]

theorem inherit_meaning (e : Expr) (o : Option Nat) : (e.inherit o).meaning S = e.meaning S := by
  cases e with
  | mk origin form => rfl

/-- What simplifies to the name of the factory stands for it. -/
theorem Kept.factory (h : Kept S e) (hf : isFactory (simplify e) = true) : S.GivesFactory e := by
  intro env
  rw [← show (simplify e).meaning S = e.meaning S from h]
  generalize simplify e = simple at hf
  obtain ⟨o, form⟩ := simple
  cases form with
  | ident name =>
      have hname : name = Expr.factoryName := by simpa [isFactory, Expr.form] using hf
      simp [Expr.meaning, Form.meaning, hname]
  | _ => simp [isFactory, Expr.form] at hf

theorem Kept.item_meaning (h : Kept S e) : Elem.meaning S (.item (simplify e)) env = Elem.meaning S (.item e) env := by
  rw [Elem.meaning, Elem.meaning, show (simplify e).meaning S = e.meaning S from h]

theorem Kept.spread_meaning (h : Kept S e) :
    Elem.meaning S (.spread (simplify e)) env = Elem.meaning S (.spread e) env := by
  rw [Elem.meaning, Elem.meaning, show (simplify e).meaning S = e.meaning S from h]

theorem Kept.pair_meaning (h : Kept S e) (key : String) :
    Member.meaning S (.pair key (simplify e)) env = Member.meaning S (.pair key e) env := by
  rw [Member.meaning, Member.meaning, show (simplify e).meaning S = e.meaning S from h]

theorem Kept.members_meaning (h : Kept S e) :
    Member.meaning S (.spread (simplify e)) env = Member.meaning S (.spread e) env := by
  rw [Member.meaning, Member.meaning, show (simplify e).meaning S = e.meaning S from h]

/-! ## One list after the other -/

/-- A normal form of lists that may be taken of the parts first. -/
def Absorbs (normal : List β → List β) : Prop :=
  ∀ xs ys, normal (normal xs ++ normal ys) = normal (xs ++ ys)

theorem joined_absorbs : Absorbs (joined (α := α)) := by
  intro xs ys
  rw [joined_append_right, joined_append_left]

theorem collected_absorbs : Absorbs (collected (β := β)) := by
  intro xs ys
  rw [collected_append, collected_collected, foldl_collected, collected_append]

variable [LawfulMonad m]

theorem Always.bind_eq {p : γ → Prop} {x : m γ} (h : Always p x) {f g : γ → m δ} (hfg : ∀ a, p a → f a = g a) :
    x >>= f = x >>= g := by
  obtain ⟨y, rfl⟩ := h
  rw [bind_map_left, bind_map_left]
  exact bind_congr fun a => hfg a.val a.property

theorem inTurn_pure_nil (x : m (List β)) : inTurn x (pure []) = x := by
  simp [inTurn]

theorem pure_nil_inTurn (x : m (List β)) : inTurn (pure []) x = x := by
  simp [inTurn]

theorem inTurn_assoc (x y z : m (List β)) : inTurn (inTurn x y) z = inTurn x (inTurn y z) := by
  simp only [inTurn, bind_assoc, pure_bind, List.append_assoc]

theorem map_inTurn {normal : List β → List β} (h : Absorbs normal) (x y : m (List β)) :
    normal <$> inTurn x y = normal <$> inTurn (normal <$> x) (normal <$> y) := by
  simp [inTurn, h _ _]

/-- Lists that are as good as others are so one after the other. -/
theorem inTurn_congr {normal : List β → List β} (h : Absorbs normal) {x x' y y' : m (List β)}
    (hx : normal <$> x = normal <$> x') (hy : normal <$> y = normal <$> y') :
    normal <$> inTurn x y = normal <$> inTurn x' y' := by
  rw [map_inTurn h, hx, hy, ← map_inTurn h]

/-! ## Elements -/

theorem elemsMeaning_single (elem : Elem) : elemsMeaning S [elem] env = elem.meaning S env :=
  inTurn_pure_nil _

theorem elemsMeaning_append (elems others : List Elem) :
    elemsMeaning S (elems ++ others) env = inTurn (elemsMeaning S elems env) (elemsMeaning S others env) := by
  induction elems with
  | nil => exact (pure_nil_inTurn _).symm
  | cons elem elems ih => rw [List.cons_append, elemsMeaning, elemsMeaning, ih, inTurn_assoc]

/-- Joining string literals changes nothing up to concatenation. -/
theorem mergeStrings_meaning (elems : List Elem) :
    joined <$> elemsMeaning S (mergeStrings elems) env = joined <$> elemsMeaning S elems env := by
  induction elems with
  | nil => rfl
  | cons elem elems ih =>
      rcases mergeStrings_cases elem elems with hkept | ⟨o, s, o', t, rest, rfl, hmerged, hjoined⟩
      · rw [hkept]
        exact inTurn_congr joined_absorbs rfl ih
      · calc joined <$> elemsMeaning S (mergeStrings (.item (.mk o (.str s)) :: elems)) env
            = (fun values => joined (.str s :: .str t :: values)) <$> elemsMeaning S rest env := by
              simp [hjoined, elemsMeaning, Elem.meaning, Expr.meaning, Form.meaning, inTurn, joined_strings]
          _ = joined <$> inTurn (Elem.meaning S (.item (.mk o (.str s))) env)
                (elemsMeaning S (mergeStrings elems) env) := by
              simp [hmerged, elemsMeaning, Elem.meaning, Expr.meaning, Form.meaning, inTurn]
          _ = joined <$> elemsMeaning S (.item (.mk o (.str s)) :: elems) env := inTurn_congr joined_absorbs rfl ih

/-- The elements of an array literal stand for what a spread of it stands for. -/
theorem spreadElems_meaning (e : Expr) :
    joined <$> elemsMeaning S (spreadElems e) env = joined <$> Elem.meaning S (.spread e) env := by
  obtain ⟨o, form⟩ := e
  by_cases h : ∃ elems, form = .array elems
  · obtain ⟨elems, rfl⟩ := h
    simp [spreadElems, Expr.form, Elem.meaning, Expr.meaning, Form.meaning, Interpretation.elementsOf, joined_joined]
  · have hsingle : spreadElems (.mk o form) = [.spread (.mk o form)] := by
      cases form with
      | array elems => exact absurd ⟨elems, rfl⟩ h
      | _ => rfl
    rw [hsingle, elemsMeaning_single]

theorem elems_meaning {elems : List Elem} (h : ∀ elem ∈ elems, Kept S elem.expr) :
    joined <$> elemsMeaning S (simplifyElems elems) env = joined <$> elemsMeaning S elems env := by
  induction elems with
  | nil => rfl
  | cons elem elems ih =>
      have hfirst : joined <$> elemsMeaning S (simplifyElem elem) env = joined <$> elem.meaning S env := by
        have hkept := h elem List.mem_cons_self
        cases elem with
        | item e => rw [simplifyElem, elemsMeaning_single, Kept.item_meaning (e := e) hkept]
        | spread e => rw [simplifyElem, spreadElems_meaning, Kept.spread_meaning (e := e) hkept]
      rw [simplifyElems, elemsMeaning_append]
      exact inTurn_congr joined_absorbs hfirst (ih fun other hother => h other (List.mem_cons_of_mem _ hother))

/-- Without a spread of an array literal, simplified elements have the very same values. -/
theorem unflattened_meaning {elems : List Elem} (h : ∀ elem ∈ elems, Kept S elem.expr)
    (hflat : ∀ elem ∈ elems, ¬ elem.isFlattened) :
    elemsMeaning S (simplifyElems elems) env = elemsMeaning S elems env := by
  induction elems with
  | nil => rfl
  | cons elem elems ih =>
      have hfirst : elemsMeaning S (simplifyElem elem) env = elem.meaning S env := by
        have hkept := h elem List.mem_cons_self
        have hnot := hflat elem List.mem_cons_self
        cases elem with
        | item e => rw [simplifyElem, elemsMeaning_single, Kept.item_meaning (e := e) hkept]
        | spread e =>
            have hsingle : spreadElems (simplify e) = [.spread (simplify e)] := by
              unfold spreadElems
              split
              · exact absurd (by simp [Elem.isFlattened, *]) hnot
              · rfl
            rw [simplifyElem, hsingle, elemsMeaning_single, Kept.spread_meaning (e := e) hkept]
      rw [simplifyElems, elemsMeaning_append, hfirst, elemsMeaning,
        ih (fun other hother => h other (List.mem_cons_of_mem _ hother))
          (fun other hother => hflat other (List.mem_cons_of_mem _ hother))]

/-! ## Members -/

theorem membersMeaning_single (member : Member) : membersMeaning S [member] env = member.meaning S env :=
  inTurn_pure_nil _

theorem membersMeaning_append (members others : List Member) :
    membersMeaning S (members ++ others) env =
      inTurn (membersMeaning S members env) (membersMeaning S others env) := by
  induction members with
  | nil => exact (pure_nil_inTurn _).symm
  | cons member members ih => rw [List.cons_append, membersMeaning, membersMeaning, ih, inTurn_assoc]

/-- The members of an object literal stand for what a spread of it stands for. -/
theorem spreadMembers_meaning (e : Expr) :
    collected <$> membersMeaning S (spreadMembers e) env = collected <$> Member.meaning S (.spread e) env := by
  obtain ⟨o, form⟩ := e
  by_cases h : ∃ members, form = .object members
  · obtain ⟨members, rfl⟩ := h
    simp [spreadMembers, Expr.form, Member.meaning, Expr.meaning, Form.meaning, Interpretation.entriesOf,
      collected_collected]
  · have hsingle : spreadMembers (.mk o form) = [.spread (.mk o form)] := by
      cases form with
      | object members => exact absurd ⟨members, rfl⟩ h
      | _ => rfl
    rw [hsingle, membersMeaning_single]

theorem members_meaning {members : List Member} (h : ∀ e ∈ members.flatMap Member.exprs, Kept S e) :
    collected <$> membersMeaning S (simplifyMembers members) env = collected <$> membersMeaning S members env := by
  induction members with
  | nil => rfl
  | cons member members ih =>
      have hfirst : collected <$> membersMeaning S (simplifyMember member) env = collected <$> member.meaning S env := by
        have hkept : ∀ e ∈ member.exprs, Kept S e := fun e he => h e (List.mem_append_left _ he)
        cases member with
        | pair key e => rw [simplifyMember, membersMeaning_single, (hkept e List.mem_cons_self).pair_meaning]
        | spread e => rw [simplifyMember, spreadMembers_meaning, (hkept e List.mem_cons_self).members_meaning]
        | code pieces => rw [simplifyMember, membersMeaning_single, Member.meaning, Member.meaning, code_meaning hkept]
      rw [simplifyMembers, membersMeaning_append]
      exact inTurn_congr collected_absorbs hfirst (ih fun e he => h e (List.mem_append_right _ he))

/-- An object that only has the members of an object is that object. -/
theorem objectOf_meaning {members : List Member} (o : Option Nat) (h : ∀ e, .spread e ∈ members → S.GivesObject e) :
    (objectOf o members).meaning S = (Expr.mk o (.object members)).meaning S := by
  rcases objectOf_cases o members with hobject | ⟨e, rfl, hinherit⟩
  · rw [hobject]
  · have hself : ∀ value, Value.IsObject value →
        pure value = S.entriesOf value >>= fun entries => pure (Value.object (collected entries)) := by
      intro value hvalue
      cases value with
      | object entries => simp [Interpretation.entriesOf, collected_of_nodup hvalue]
      | _ => exact hvalue.elim
    funext env
    calc (objectOf o [.spread e]).meaning S env
        = e.meaning S env >>= pure := by rw [hinherit, inherit_meaning, bind_pure]
      _ = e.meaning S env >>= fun value => S.entriesOf value >>= fun entries =>
            pure (.object (collected entries)) := (h e List.mem_cons_self env).bind_eq hself
      _ = (Expr.mk o (.object [.spread e])).meaning S env := by
          rw [Expr.meaning, Form.meaning, membersMeaning_single, Member.meaning, bind_assoc]

/-! ## Calls -/

omit [Monad m] [LawfulMonad m] in
/-- The factory takes children up to concatenation. -/
theorem joinsChildren_factory : S.JoinsChildren .factory := by
  intro arguments
  match arguments with
  | [] => rfl
  | [_] => rfl
  | first :: second :: rest =>
      show S.element [first, second] (joined (joined rest)) = S.element [first, second] (joined rest)
      rw [joined_joined]

/-- What takes children up to concatenation gets the name and the properties of an element as they are. -/
theorem element_meaning {function : Value α} (hjoins : S.JoinsChildren function) (name properties : Expr)
    (children : List Elem) :
    elemsMeaning S (.item name :: .item properties :: children) env >>= S.apply function =
      name.meaning S env >>= fun a => properties.meaning S env >>= fun b =>
        joined <$> elemsMeaning S children env >>= fun values => S.apply function (a :: b :: values) := by
  have hchildren : ∀ a b values, S.apply function (a :: b :: joined values) = S.apply function (a :: b :: values) :=
    fun a b values => hjoins (a :: b :: values)
  simp [elemsMeaning, Elem.meaning, inTurn, hchildren]

/-- The children of an element may be simplified, and the strings among them joined. -/
theorem children_meaning {function : Value α} (hjoins : S.JoinsChildren function) {arguments : List Elem} (merged : Bool)
    (h : ∀ elem ∈ arguments, Kept S elem.expr) (hitems : ∀ elem ∈ arguments.take 2, elem.isItem) :
    elemsMeaning S (if merged then mergeStringsFrom 2 (simplifyElems arguments) else simplifyElems arguments) env >>=
        S.apply function =
      elemsMeaning S arguments env >>= S.apply function := by
  match arguments with
  | [] => cases merged <;> rfl
  | [.item name] =>
      have hname : Kept S name := h _ List.mem_cons_self
      have hsame : (if merged then mergeStringsFrom 2 [.item (simplify name)] else [.item (simplify name)]) =
          [Elem.item (simplify name)] := by
        cases merged <;> rfl
      calc _ = elemsMeaning S [.item (simplify name)] env >>= S.apply function :=
            congrArg (elemsMeaning S · env >>= _) hsame
        _ = _ := by rw [elemsMeaning_single, elemsMeaning_single, hname.item_meaning]
  | .item name :: .item properties :: children =>
      have hname : Kept S name := h _ List.mem_cons_self
      have hproperties : Kept S properties := h (.item properties) (by simp)
      have hchildren : joined <$> elemsMeaning S (simplifyElems children) env = joined <$> elemsMeaning S children env :=
        elems_meaning fun elem helem => h elem (by simp [helem])
      have hjoined : joined <$> elemsMeaning S
            (if merged then mergeStrings (simplifyElems children) else simplifyElems children) env =
          joined <$> elemsMeaning S children env := by
        cases merged with
        | false => exact hchildren
        | true => exact (mergeStrings_meaning _).trans hchildren
      have hcons : (if merged then mergeStringsFrom 2 (simplifyElems (.item name :: .item properties :: children))
            else simplifyElems (.item name :: .item properties :: children)) =
          .item (simplify name) :: .item (simplify properties) ::
            (if merged then mergeStrings (simplifyElems children) else simplifyElems children) := by
        cases merged <;> rfl
      -- the third argument stays the third, since the two in front of it are no spreads
      rw [hcons, element_meaning hjoins, element_meaning hjoins, hjoined]
      rw [show (simplify name).meaning S = name.meaning S from hname,
        show (simplify properties).meaning S = properties.meaning S from hproperties]
  | .spread e :: _ => exact absurd (hitems _ List.mem_cons_self) (by simp [Elem.isItem])
  | .item _ :: .spread e :: _ => exact absurd (hitems (.spread e) (by simp)) (by simp [Elem.isItem])

/-- What takes all arguments up to concatenation does not tell simplified ones, nor whether strings are joined from
some argument on. -/
theorem arguments_meaning {function : Value α} (hjoins : S.JoinsArguments function) {arguments : List Elem} (merged : Bool)
    (h : ∀ elem ∈ arguments, Kept S elem.expr) :
    elemsMeaning S (if merged then mergeStringsFrom 2 (simplifyElems arguments) else simplifyElems arguments) env >>=
        S.apply function =
      elemsMeaning S arguments env >>= S.apply function := by
  have happly : ∀ x : m (List (Value α)), x >>= S.apply function = joined <$> x >>= S.apply function := by
    intro x
    rw [bind_map_left]
    exact bind_congr fun values => (hjoins values).symm
  have hmerged : joined <$> elemsMeaning S
        (if merged then mergeStringsFrom 2 (simplifyElems arguments) else simplifyElems arguments) env =
      joined <$> elemsMeaning S (simplifyElems arguments) env := by
    cases merged with
    | false => rfl
    | true =>
        calc joined <$> elemsMeaning S (mergeStringsFrom 2 (simplifyElems arguments)) env
            = joined <$> elemsMeaning S ((simplifyElems arguments).take 2 ++ (simplifyElems arguments).drop 2) env := by
              rw [mergeStringsFrom, elemsMeaning_append, elemsMeaning_append]
              exact inTurn_congr joined_absorbs rfl (mergeStrings_meaning _)
          _ = joined <$> elemsMeaning S (simplifyElems arguments) env := by rw [List.take_append_drop]
  rw [happly, hmerged, elems_meaning h, ← happly]

/-- A simplified call. -/
theorem call_meaning {callee : Expr} {arguments : List Elem} (o : Option Nat) (hcallee : Kept S callee)
    (harguments : ∀ elem ∈ arguments, Kept S elem.expr) (h : S.CallFits callee arguments) :
    (callOf o (simplify callee) (simplifyElems arguments)).meaning S = (Expr.mk o (.call callee arguments)).meaning S := by
  funext env
  have hsame : (simplify callee).meaning S env = callee.meaning S env := congrFun hcallee env
  rw [callOf, Expr.meaning, Form.meaning, Expr.meaning, Form.meaning, hsame]
  cases h with
  | element hjoins hitems =>
      exact (hjoins env).bind_eq fun function hfunction => children_meaning hfunction _ harguments hitems
  | joins hjoins => exact (hjoins env).bind_eq fun function hfunction => arguments_meaning hfunction _ harguments
  | apart hother hflat =>
      have hnot : ¬ isFactory (simplify callee) = true := fun hname => hother (hcallee.factory hname)
      rw [if_neg hnot, unflattened_meaning harguments hflat]

/-- What holds of every value holds of every result. -/
theorem Always.of_forall {p : γ → Prop} (h : ∀ a, p a) (x : m γ) : Always p x :=
  ⟨(fun a => ⟨a, h a⟩) <$> x, by rw [← comp_map]; exact id_map x⟩

theorem Always.pure {p : γ → Prop} {a : γ} (h : p a) : Always p (Pure.pure a : m γ) :=
  ⟨Pure.pure ⟨a, h⟩, map_pure _ _⟩

theorem Always.imp {p q : γ → Prop} {x : m γ} (h : Always p x) (hpq : ∀ a, p a → q a) : Always q x := by
  obtain ⟨y, rfl⟩ := h
  refine ⟨(fun a => ⟨a.val, hpq a.val a.property⟩) <$> y, ?_⟩
  rw [← comp_map]
  rfl

/-- Where all functions take their arguments up to concatenation, only the name and the properties of elements are told
apart from strings beside them. -/
theorem Interpretation.ElementFits.fits (hcalls : S.JoinsCalls) {e : Expr} (h : S.ElementFits e) : S.Fits e := by
  obtain ⟨o, form⟩ := e
  cases form with
  | call callee arguments =>
      have hother : ∀ function : Value α, function ≠ .factory → S.JoinsArguments function := by
        intro function hne arguments
        cases function with
        | factory => exact absurd rfl hne
        | _ => exact hcalls _ arguments
      rcases h with hnever | hitems
      · exact .joins fun env => (hnever env).imp hother
      · refine .element (fun env => .of_forall (fun function => ?_) _) hitems
        by_cases hf : function = .factory
        · rw [hf]
          exact joinsChildren_factory
        · intro values
          rw [← hother function hf, joined_append_right, List.take_append_drop, hother function hf]
  | _ => exact h

/-! ## Expressions -/

/-- What is known of an expression that was simplified: it means what it meant, and if it is an object literal now, what
is spread in it is an object, but no literal. -/
structure Simplified (S : Interpretation m Env α) (e : Expr) : Prop where
  kept : Kept S e
  spreads : ∀ members, (simplify e).form = .object members → ∀ inner, .spread inner ∈ members →
    S.GivesObject inner ∧ ∀ others, inner.form ≠ .object others

omit [LawfulMonad m] in
/-- What is spread in simplified members. -/
theorem spread_mem_simplifyMembers {members : List Member} (hspread : ∀ e, .spread e ∈ members → S.GivesObject e)
    (h : ∀ e ∈ members.flatMap Member.exprs, Simplified S e) {inner : Expr} (hinner : .spread inner ∈ simplifyMembers members) :
    S.GivesObject inner ∧ ∀ others, inner.form ≠ .object others := by
  induction members with
  | nil => cases hinner
  | cons member members ih =>
      rw [simplifyMembers, List.mem_append] at hinner
      rcases hinner with hfirst | hrest
      · cases member with
        | pair key e => simp [simplifyMember] at hfirst
        | code pieces => simp [simplifyMember] at hfirst
        | spread e =>
            have hsimple : Simplified S e := h e (by simp [Member.exprs])
            rw [simplifyMember] at hfirst
            unfold spreadMembers at hfirst
            split at hfirst
            · next others hform => exact hsimple.spreads others hform inner hfirst
            · next hform =>
              obtain rfl : inner = simplify e := by simpa using hfirst
              refine ⟨?_, hform⟩
              intro env
              rw [show (simplify e).meaning S = e.meaning S from hsimple.kept]
              exact hspread e List.mem_cons_self env
      · exact ih (fun e he => hspread e (List.mem_cons_of_mem _ he)) (fun e he => h e (List.mem_append_right _ he)) hrest

omit [LawfulMonad m] in
theorem simplified_of_kept (hkept : Kept S e) (h : ∀ members, (simplify e).form ≠ .object members) : Simplified S e :=
  ⟨hkept, fun members hform => absurd hform (h members)⟩

/-- A simplified object. -/
theorem object_simplified {members : List Member} (o : Option Nat) (h : ∀ e, .spread e ∈ members → S.GivesObject e)
    (hmembers : ∀ e ∈ members.flatMap Member.exprs, Simplified S e) : Simplified S (.mk o (.object members)) := by
  have hspread : ∀ inner, .spread inner ∈ simplifyMembers members →
      S.GivesObject inner ∧ ∀ others, inner.form ≠ .object others :=
    fun inner hinner => spread_mem_simplifyMembers h hmembers hinner
  have hobject : (objectOf o (simplifyMembers members)).meaning S =
      (Expr.mk o (.object (simplifyMembers members))).meaning S :=
    objectOf_meaning o fun inner hinner => (hspread inner hinner).1
  have hkept : Kept S (.mk o (.object members)) := by
    apply hobject.trans
    funext env
    have hcollected : collected <$> membersMeaning S (simplifyMembers members) env =
        collected <$> membersMeaning S members env := members_meaning fun e he => (hmembers e he).kept
    simpa [Expr.meaning, Form.meaning] using congrArg (Value.object <$> ·) hcollected
  refine ⟨hkept, ?_⟩
  intro others hform inner hinner
  rw [simplify, simplifyForm] at hform
  generalize simplifyMembers members = simple at hspread hform
  rcases objectOf_cases o simple with hsame | ⟨e, rfl, hinherit⟩
  · rw [hsame] at hform
    obtain rfl := Form.object.inj hform
    exact hspread inner hinner
  · -- what took the place of the object was spread in it, so it is no literal
    rw [hinherit] at hform
    exact absurd hform ((hspread e List.mem_cons_self).2 others)

/-- A simplified scope, which is gone if it has no statements. -/
theorem scope_simplified {statements : List Code} {body : Expr} (o : Option Nat) (hbody : Simplified S body)
    (hstatements : ∀ e ∈ statements.flatMap Code.exprs, Kept S e) : Simplified S (.mk o (.scope statements body)) := by
  have hsame : (simplify body).meaning S = body.meaning S := hbody.kept
  cases statements with
  | nil =>
      have hkept : Kept S (.mk o (.scope [] body)) := by
        funext env
        calc ((simplify body).inherit o).meaning S env
            = body.meaning S env := by rw [inherit_meaning, hsame]
          _ = (Expr.mk o (.scope [] body)).meaning S env := by
            rw [Expr.meaning, Form.meaning, statementsMeaning, pure_bind]
      exact ⟨hkept, hbody.spreads⟩
  | cons code statements =>
      refine simplified_of_kept ?_ (fun _ => nofun)
      have hall : statementsMeaning S (simplifyStatements (code :: statements)) =
          statementsMeaning S (code :: statements) := statements_meaning hstatements
      funext env
      show (Expr.mk o (.scope (simplifyStatements (code :: statements)) (simplify body))).meaning S env = _
      rw [Expr.meaning, Form.meaning, Expr.meaning, Form.meaning, hall, hsame]

/-- An expression that may be simplified everywhere means the same afterwards. -/
theorem Expr.Everywhere.simplified (h : e.Everywhere S.Fits) : Simplified S e := by
  induction h with
  | @mk o form here inside ih =>
      cases form with
      | null | bool _ | str _ | ident _ => exact simplified_of_kept rfl (fun _ => nofun)
      | index e n =>
          have he : (simplify e).meaning S = e.meaning S := (ih e List.mem_cons_self).kept
          refine simplified_of_kept ?_ (fun _ => nofun)
          funext env
          simp only [simplify, simplifyForm, Expr.meaning, Form.meaning, he]
      | array elems =>
          have helems : ∀ elem ∈ elems, Kept S elem.expr := fun elem helem => (ih _ (List.mem_map_of_mem helem)).kept
          refine simplified_of_kept ?_ (fun _ => nofun)
          funext env
          have hjoined : joined <$> elemsMeaning S (mergeStrings (simplifyElems elems)) env =
              joined <$> elemsMeaning S elems env := (mergeStrings_meaning _).trans (elems_meaning helems)
          simpa [simplify, simplifyForm, Expr.meaning, Form.meaning] using congrArg (Value.array <$> ·) hjoined
      | object members => exact object_simplified o here ih
      | call callee arguments =>
          refine simplified_of_kept ?_ (fun _ => nofun)
          exact call_meaning o (ih callee List.mem_cons_self).kept
            (fun elem helem => (ih _ (List.mem_cons_of_mem _ (List.mem_map_of_mem helem))).kept) here
      | arrow parameter body =>
          have hbody : (simplify body).meaning S = body.meaning S := (ih body List.mem_cons_self).kept
          refine simplified_of_kept ?_ (fun _ => nofun)
          funext env
          simp only [simplify, simplifyForm, Expr.meaning, Form.meaning, hbody]
      | scope statements body =>
          exact scope_simplified o (ih body List.mem_cons_self) fun e he => (ih e (List.mem_cons_of_mem _ he)).kept
      | code pieces =>
          refine simplified_of_kept ?_ (fun _ => nofun)
          funext env
          simp only [simplify, simplifyForm, Expr.meaning, Form.meaning, code_meaning fun e he => (ih e he).kept]

end ComponentMarkup.Program
