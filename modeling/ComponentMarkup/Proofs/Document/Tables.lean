import ComponentMarkup.Proofs.Document.ScriptStretches
import ComponentMarkup.Proofs.Markup.TabularTrees

/-!
# Tables in stretches of documents

What the grammar of documents makes of the tables in a stretch of a text, whatever stands before and after it.  The
places of trees are counted in characters until the tree is handed out, so rows are compared with the text there.

* `markupStretch_tabular` — the tables of a stretch have as many alignments as columns, and its rows all their cells
  and pipes.
-/

namespace ComponentMarkup.Document

open ComponentMarkup.Text ComponentMarkup.Tree ComponentMarkup.Markup

/-- **Tables are laid out in columns**, wherever a stretch of a text is read as a document, from any entry point.  The
header of a table has a cell for each alignment, of which there is one for each cell of the delimiter row, and rows
have a node for each of their cells and unescaped pipes. -/
theorem markupStretch_tabular (before part after entry : String) :
    let src := Source.ofString (before ++ part ++ after)
    let tree := (Grammar.markup.parse src ⟨before.length, (before ++ part).length⟩ entry).value
    (parseStretch? .markup (before ++ part ++ after)
        ⟨before.utf8ByteSize, before.utf8ByteSize + part.utf8ByteSize⟩ entry).map Limited.value =
      some (tree.inBytes src.byteOffsets) ∧
    ∀ n, tree.Within n → (n.kind = .markup .table → IsTable n) ∧
      (n.kind = .markup .tableHeader ∨ n.kind = .markup .tableRow → IsRow src n) := by
  obtain ⟨hle, hsize⟩ := part_within before part after
  refine ⟨by rw [parseStretch_part]; rfl, fun n hn => ?_⟩
  have htree : TabularTree (Source.ofString (before ++ part ++ after)) (Grammar.markup.parse
      (Source.ofString (before ++ part ++ after)) ⟨before.length, (before ++ part).length⟩ entry).value := by
    unfold Grammar.markup
    dsimp only
    split
    · exact readInlineContent_tabular _ _
    · exact readDocument_tabular hle hsize
  exact ⟨(htree n hn).table, (htree n hn).row⟩

end ComponentMarkup.Document
