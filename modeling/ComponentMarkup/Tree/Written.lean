import ComponentMarkup.Text.Quoted
import ComponentMarkup.Tree.Node

/-!
# Trees written on one line

A leaf is written as its kind and its quoted text, a fault with its message, a branch with its place,
the grammar it hosts and its children in brackets.
-/

namespace ComponentMarkup.Tree

open ComponentMarkup.Text

namespace Node

mutual

/-- A tree on one line. -/
def written : Node → String
  | leaf k t _ => k.label ++ ": " ++ quoted t
  | inner k s h _ _ cs =>
    k.label ++ ": " ++ toString s.start ++ ".." ++ toString s.stop ++
      (match h with
        | some choice => " (" ++ choice.grammar ++ ":" ++ choice.entry ++ ")"
        | none => "") ++
      (if cs.isEmpty then "" else " [" ++ ", ".intercalate (writtenAll cs) ++ "]")
  | fault m _ t _ => "Error: " ++ quoted t ++ " (" ++ m ++ ")"

/-- Several trees, each on one line. -/
def writtenAll : List Node → List String
  | [] => []
  | c :: cs => written c :: writtenAll cs

end

end Node

end ComponentMarkup.Tree
