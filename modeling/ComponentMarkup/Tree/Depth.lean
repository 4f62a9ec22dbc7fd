/-!
# Limits on nesting

Nesting is limited everywhere.  What gets too deep is kept as text and the place is recorded, so a
result is a value together with the first place at which nesting got too deep on the way to it.
-/

namespace ComponentMarkup.Tree

/-- How deep blocks, inline content, script and hosted grammars may nest. -/
def maxDepth : Nat := 256

/-- A value, and where nesting first got too deep on the way to it. -/
structure Limited (α : Type) where
  /-- The value. -/
  value : α
  /-- The first place at which nesting got too deep, if any. -/
  overflow : Option Nat
  deriving Repr

namespace Limited

/-- The earlier of two recorded places, in the order in which they were recorded. -/
def first (a b : Option Nat) : Option Nat :=
  a.orElse fun _ => b

instance : Monad Limited where
  pure a := ⟨a, none⟩
  bind x f :=
    let y := f x.value
    ⟨y.value, first x.overflow y.overflow⟩

end Limited

end ComponentMarkup.Tree
