import ComponentMarkup.Proofs.Document.Lossless
import ComponentMarkup.Proofs.Script.OperatorTrees

/-!
# Stretches of script

What the script grammar makes of a stretch of a text, whatever stands before and after it.

* `parseStretch_part` — a part of a text is a stretch that can be read;
* `scriptStretch_afresh` — remembering arrow functions does not change the tree;
* `scriptStretch_wellBound` — operators have the operands that they may have.
-/

namespace ComponentMarkup.Document

open ComponentMarkup.Text ComponentMarkup.Tree

/-- A part of a text is read from where the text before it ends to where the part ends. -/
theorem parseStretch_part (g : Grammar) (before part after entry : String) :
    parseStretch? g (before ++ part ++ after)
        ⟨before.utf8ByteSize, before.utf8ByteSize + part.utf8ByteSize⟩ entry =
      some ⟨(g.parse (Source.ofString (before ++ part ++ after)) ⟨before.length, (before ++ part).length⟩
          entry).value.inBytes (Source.ofString (before ++ part ++ after)).byteOffsets,
        (g.parse (Source.ofString (before ++ part ++ after)) ⟨before.length, (before ++ part).length⟩
          entry).overflow.map (byteAt (Source.ofString (before ++ part ++ after)).byteOffsets)⟩ := by
  have hstart : placeAt? (Source.ofString (before ++ part ++ after)).byteOffsets
      before.utf8ByteSize = some before.length := by
    rw [String.append_assoc]
    exact placeAt_prefix before (part ++ after)
  have hstop : placeAt? (Source.ofString (before ++ part ++ after)).byteOffsets
      (before.utf8ByteSize + part.utf8ByteSize) = some (before ++ part).length := by
    rw [← String.utf8ByteSize_append]
    exact placeAt_prefix (before ++ part) after
  unfold parseStretch?
  dsimp only
  rw [hstart, hstop]
  rfl

/-! ## Reading without a memory -/

/-- The language of scripts, read by a parser that remembers no arrow functions. -/
def Grammar.scriptAfresh : Grammar :=
  { Grammar.script with parse := Script.readNamedAfresh }

/-- **Remembering arrow functions does not change the tree.**  A stretch of a text is read as a script the same
by the parser that remembers the groups it read as arrow functions and by one that always reads them again, from
any entry point, unless nesting gets too deep for one of the two. -/
theorem scriptStretch_afresh (before part after entry : String) :
    ∃ parsed afresh, parseStretch? .script (before ++ part ++ after)
        ⟨before.utf8ByteSize, before.utf8ByteSize + part.utf8ByteSize⟩ entry = some parsed ∧
      parseStretch? .scriptAfresh (before ++ part ++ after)
        ⟨before.utf8ByteSize, before.utf8ByteSize + part.utf8ByteSize⟩ entry = some afresh ∧
      (parsed.overflow = none → afresh.overflow = none → parsed.value = afresh.value) := by
  refine ⟨_, _, parseStretch_part .script before part after entry,
    parseStretch_part .scriptAfresh before part after entry, fun hlevel hlevel' => ?_⟩
  obtain ⟨hle, hsize⟩ := part_within before part after
  rw [Option.map_eq_none_iff] at hlevel hlevel'
  exact congrArg (Node.inBytes _) (Script.readNamed_afresh entry hle hsize hlevel hlevel')

/-- An arrow function within the parameters of another is met twice: when these are read as elements and when they
are read as parameters. -/
theorem scriptStretch_afresh_nested :
    ∃ parsed afresh, parseStretch? .script ("x = " ++ "(a = (b) => c) => d" ++ ";") ⟨4, 23⟩ "expression" =
        some parsed ∧
      parseStretch? .scriptAfresh ("x = " ++ "(a = (b) => c) => d" ++ ";") ⟨4, 23⟩ "expression" = some afresh ∧
      parsed.overflow = none ∧ afresh.overflow = none ∧ parsed.value = afresh.value := by
  obtain ⟨parsed, afresh, hparsed, hafresh, hsame⟩ :=
    scriptStretch_afresh "x = " "(a = (b) => c) => d" ";" "expression"
  have hlevel : (parseStretch? .script ("x = " ++ "(a = (b) => c) => d" ++ ";") ⟨4, 23⟩ "expression").map
      (·.overflow) = some none := by decide +kernel
  have hlevel' : (parseStretch? .scriptAfresh ("x = " ++ "(a = (b) => c) => d" ++ ";") ⟨4, 23⟩
      "expression").map (·.overflow) = some none := by decide +kernel
  have hstretch : (⟨"x = ".utf8ByteSize, "x = ".utf8ByteSize + "(a = (b) => c) => d".utf8ByteSize⟩ : Span) =
      ⟨4, 23⟩ := by decide +kernel
  rw [hstretch] at hparsed hafresh
  rw [hparsed] at hlevel
  rw [hafresh] at hlevel'
  have hnone := Option.some.inj hlevel
  have hnone' := Option.some.inj hlevel'
  exact ⟨parsed, afresh, hparsed, hafresh, hnone, hnone', hsame hnone hnone'⟩

/-! ## How operators nest -/

/-- **Operators have the operands that they may have**, wherever a stretch of a text is read as a script without
faults and without nesting too deep, from any entry point. -/
theorem scriptStretch_wellBound (before part after entry : String) :
    ∃ parsed, parseStretch? .script (before ++ part ++ after)
        ⟨before.utf8ByteSize, before.utf8ByteSize + part.utf8ByteSize⟩ entry = some parsed ∧
      (parsed.overflow = none → parsed.value.faulty = false →
        ∀ n, parsed.value.Within n → Script.WellBound n) := by
  refine ⟨_, parseStretch_part .script before part after entry, fun hlevel hclean => ?_⟩
  obtain ⟨hle, hsize⟩ := part_within before part after
  rw [Option.map_eq_none_iff] at hlevel
  unfold Node.inBytes at hclean ⊢
  rw [Node.faulty_mapPlaces] at hclean
  exact Node.Throughout.mapPlaces (fun _ h => h.mapPlaces _)
    (Script.readNamed_wellBound entry hle hsize hlevel hclean)

/-- Powers group to the right, and the sign before one belongs to its base. -/
theorem scriptStretch_wellBound_powers :
    ∃ parsed, parseStretch? .script ("x = " ++ "a + b * -c ** d ** e" ++ ";") ⟨4, 24⟩ "expression" = some parsed ∧
      parsed.overflow = none ∧ parsed.value.faulty = false ∧
      parsed.value.children.any (·.isScript .binary) = true ∧
      ∀ n, parsed.value.Within n → Script.WellBound n := by
  obtain ⟨parsed, hparsed, hbound⟩ := scriptStretch_wellBound "x = " "a + b * -c ** d ** e" ";" "expression"
  have hread : (parseStretch? .script ("x = " ++ "a + b * -c ** d ** e" ++ ";") ⟨4, 24⟩ "expression").map
      (fun parsed => (parsed.overflow, parsed.value.faulty, parsed.value.children.any (·.isScript .binary))) =
      some (none, false, true) := by decide +kernel
  have hstretch : (⟨"x = ".utf8ByteSize, "x = ".utf8ByteSize + "a + b * -c ** d ** e".utf8ByteSize⟩ : Span) =
      ⟨4, 24⟩ := by decide +kernel
  rw [hstretch] at hparsed
  rw [hparsed] at hread
  obtain ⟨hlevel, hrest⟩ := Prod.mk.inj (Option.some.inj hread)
  obtain ⟨hclean, hbinary⟩ := Prod.mk.inj hrest
  exact ⟨parsed, hparsed, hlevel, hclean, hbinary, hbound hlevel hclean⟩

end ComponentMarkup.Document
