import ComponentMarkup.Proofs.Program.CodeText

/-!
# What holds everywhere in an expression

A property holds everywhere in an expression if it holds of the expression and of all that stand in it: of what
is called, of elements and members, of the body of a function or a scope, and of the expressions between pieces of
script.

* `Form.exprs` — the expressions that stand directly in a form;
* `Expr.Everywhere` — a property of an expression and of all in it;
* `mergeStrings_cases`, `objectOf_cases` — what simplifying makes of the elements and members of a form.
-/

namespace ComponentMarkup.Program

/-- The expression of an element. -/
def Elem.expr : Elem → Expr
  | .item e => e
  | .spread e => e

/-- The expressions that stand directly in a member. -/
def Member.exprs : Member → List Expr
  | .pair _ e => [e]
  | .spread e => [e]
  | .code pieces => Code.exprs pieces

/-- The expressions that stand directly in a form. -/
def Form.exprs : Form → List Expr
  | .null | .bool _ | .str _ | .ident _ => []
  | .index e _ => [e]
  | .array elems => elems.map Elem.expr
  | .object members => members.flatMap Member.exprs
  | .call callee arguments => callee :: arguments.map Elem.expr
  | .arrow _ body => [body]
  | .scope statements body => body :: statements.flatMap Code.exprs
  | .code pieces => Code.exprs pieces

/-- A property holds of an expression and of every expression in it. -/
inductive Expr.Everywhere (P : Expr → Prop) : Expr → Prop where
  | mk {origin : Option Nat} {form : Form} (here : P (.mk origin form))
      (inside : ∀ e ∈ form.exprs, Expr.Everywhere P e) : Expr.Everywhere P (.mk origin form)

theorem Expr.Everywhere.imp {P Q : Expr → Prop} (hPQ : ∀ e, P e → Q e) {e : Expr} (h : e.Everywhere P) :
    e.Everywhere Q := by
  induction h with
  | mk here _ ih => exact .mk (hPQ _ here) ih

theorem Expr.Everywhere.here {P : Expr → Prop} {e : Expr} (h : e.Everywhere P) : P e := by
  cases h with
  | mk here _ => exact here

theorem Expr.Everywhere.inside {P : Expr → Prop} {e inner : Expr} (h : e.Everywhere P)
    (hinner : inner ∈ e.form.exprs) : inner.Everywhere P := by
  cases h with
  | mk _ inside => exact inside inner hinner

/-! ## Rewritings of single lists -/

/-- An element in front of others is joined to the first of them, if both are string literals, or kept. -/
theorem mergeStrings_cases (elem : Elem) (elems : List Elem) :
    mergeStrings (elem :: elems) = elem :: mergeStrings elems ∨
      ∃ o s o' t rest, elem = .item (.mk o (.str s)) ∧ mergeStrings elems = .item (.mk o' (.str t)) :: rest ∧
        mergeStrings (elem :: elems) = .item (.mk o (.str (s ++ t))) :: rest := by
  rw [mergeStrings.eq_def (elem :: elems)]
  dsimp only
  split
  · rename_i o s o' t rest hmerged
    exact .inr ⟨o, s, o', t, rest, rfl, hmerged, rfl⟩
  · exact .inl rfl

/-- What is spread alone takes the place of the object. -/
theorem objectOf_cases (o : Option Nat) (members : List Member) :
    objectOf o members = .mk o (.object members) ∨
      ∃ e, members = [.spread e] ∧ objectOf o members = e.inherit o := by
  fun_cases objectOf o members with
  | case1 e => exact .inr ⟨e, rfl, rfl⟩
  | case2 hother => exact .inl rfl

end ComponentMarkup.Program
