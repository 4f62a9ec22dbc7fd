import ComponentMarkup.Proofs.Document.ScriptStretches
import ComponentMarkup.Proofs.Script.BracketRules

/-!
# Unclosed brackets in stretches of scripts

What the grammar of scripts says to be unclosed in a stretch of a text, whatever stands before and after it.

* `scriptStretch_unclosed` — an opening bracket that nothing closes, unless a loop has no parenthesis;
* `scriptStretch_unclosed_space` — then white space may be.
-/

namespace ComponentMarkup.Document

open ComponentMarkup.Text ComponentMarkup.Tree

/-- **What is said to be unclosed is an opening bracket**, wherever a stretch of a text is read as a script, from any
entry point: a bracket of the branch that it stands in, which no node behind it there closes unless nesting got too deep
and the rest was taken as it is.  The one exception is made by loops without a parenthesis: where a `for` of the stretch
has none behind it, white space or a comment may be said to be unclosed. -/
theorem scriptStretch_unclosed (before part after entry : String) :
    ∃ parsed, parseStretch? .script (before ++ part ++ after)
        ⟨before.utf8ByteSize, before.utf8ByteSize + part.utf8ByteSize⟩ entry = some parsed ∧
      ∀ n, parsed.value.Within n → ∀ left f right, n.children = left ++ f :: right →
        f.says "unclosed delimiter" = true →
          Script.isIdle f.text = true ∧
            (Script.Lexer.ofSpan (.ofString (before ++ part ++ after))
              ⟨before.length, (before ++ part).length⟩).BareLoop ∨
          ∃ k b, n.kind = .script k ∧ Script.bracketOf? k = some b ∧ f.text = b.openingText ∧
            (parsed.overflow = none → Script.closes b 0 right = false) := by
  refine ⟨_, parseStretch_part .script before part after entry, ?_⟩
  have hopened := Node.Throughout.mapPlaces (fun _ h => h.mapPlaces
    (byteAt (Source.ofString (before ++ part ++ after)).byteOffsets)) (Script.readNamed_opened
      (Source.ofString (before ++ part ++ after)) ⟨before.length, (before ++ part).length⟩ entry)
  intro n hn left f right hchildren hsays
  refine (hopened n hn left f right hchildren hsays).imp_right ?_
  rintro ⟨k, b, hkind, hk, htext, hopen⟩
  exact ⟨k, b, hkind, hk, htext, fun hlevel => hopen fun hdeep => hdeep (Option.map_eq_none_iff.mp hlevel)⟩

/-- The texts that a tree says to be unclosed. -/
def unclosedTexts (root : Node) : List String :=
  ((root.outline 0).map Prod.snd).filterMap fun n => if n.says "unclosed delimiter" then some n.text else none

/-- A call and an array that are not closed. -/
example : (parseStretch? .script "f(a, [b" ⟨0, 7⟩ "statements").map (fun parsed => unclosedTexts parsed.value) =
    some ["(", "["] := by decide +kernel

/-- In `for x of y z` the parenthesis is missing, and the space where it would be is said to be unclosed. -/
theorem scriptStretch_unclosed_space :
    (parseStretch? .script "for x of y z" ⟨0, 12⟩ "statements").map (fun parsed => unclosedTexts parsed.value) =
      some [" "] := by
  decide +kernel

end ComponentMarkup.Document
