import ComponentMarkup.Program.Expr
import ComponentMarkup.Tree.Node

/-!
# What rendering gathers

While a document is rendered, what the program around it needs is gathered: the names it refers to, the imports
and exports of its scripts, and the problems found on the way.  A result of rendering is a value with what was
gathered for it, so a value never depends on what was gathered before.
-/

namespace ComponentMarkup.Render

open ComponentMarkup.Program ComponentMarkup.Tree

/-- What the program around a rendered document needs. -/
structure Needs where
  /-- The names that are referred to. -/
  names : List String := []
  /-- The names that imports bind. -/
  bound : List String := []
  /-- The imports. -/
  imports : List Code := []
  /-- The exports. -/
  exports : List Code := []
  /-- The module of every import, and whether the import binds its default export. -/
  modules : List (String × Bool) := []
  /-- What is wrong. -/
  problems : List Fault := []

namespace Needs

/-- What two parts need, in order. -/
def append (a b : Needs) : Needs where
  names := a.names ++ b.names
  bound := a.bound ++ b.bound
  imports := a.imports ++ b.imports
  exports := a.exports ++ b.exports
  modules := a.modules ++ b.modules
  problems := a.problems ++ b.problems

instance : Append Needs := ⟨append⟩

instance : Inhabited Needs := ⟨{}⟩

end Needs

/-- A value, and what was gathered for it. -/
structure Rendered (α : Type) where
  /-- The value. -/
  value : α
  /-- What was gathered. -/
  needs : Needs

namespace Rendered

instance : Monad Rendered where
  pure a := ⟨a, {}⟩
  bind x f :=
    let y := f x.value
    ⟨y.value, x.needs ++ y.needs⟩

/-- Gathers something. -/
def gather (needs : Needs) : Rendered Unit :=
  ⟨(), needs⟩

/-- Reports a problem. -/
def report (fault : Fault) : Rendered Unit :=
  gather { problems := [fault] }

/-- A variable that the program must provide. -/
def refer (name : String) : Rendered Expr :=
  ⟨.ident name, { names := [name] }⟩

/-- Renders each member of a list, in order. -/
def forAll {α β : Type} (f : α → Rendered β) : List α → Rendered (List β)
  | [] => pure []
  | a :: as => do
    let b ← f a
    let bs ← forAll f as
    return b :: bs

end Rendered

end ComponentMarkup.Render
