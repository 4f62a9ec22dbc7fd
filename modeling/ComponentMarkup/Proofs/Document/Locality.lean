import ComponentMarkup.Proofs.Document.Lossless
import ComponentMarkup.Proofs.Script.Locality

/-!
# Scripts in a longer text

What a script means does not depend on the text it stands in, as long as that text does not end in a dot right
before the script: reading the script where it stands gives the tree of the script alone, all places moved by
the bytes in front of it.

* `Source.byteAt_within` — the bytes before a place of a part of a text;
* `scriptStretch_local` — a stretch of script is read as a text of its own.
-/

namespace ComponentMarkup.Text

/-- The bytes before a place of a part of a text are those before the part and those within it. -/
theorem Source.byteAt_within (before part after : String) {i : Nat} (hi : i ≤ part.length) :
    byteAt (Source.ofString (before ++ part ++ after)).byteOffsets (i + before.length) =
      byteAt (Source.ofString part).byteOffsets i + before.utf8ByteSize := by
  have hpart : i ≤ (Source.ofString part).size := by
    rw [Source.size_ofString]
    exact hi
  have hwhole : i + before.length ≤ (Source.ofString (before ++ part ++ after)).size := by
    rw [Source.size_ofString, String.length_append, String.length_append]
    omega
  have htake : (before ++ part ++ after).toList.take (i + before.length) =
      before.toList ++ part.toList.take i := by
    rw [String.toList_append, String.toList_append, List.append_assoc, Nat.add_comm,
      ← String.length_toList, List.take_length_add_append,
      List.take_append_of_le_length (by rw [String.length_toList]; exact hi)]
  rw [Source.byteAt_byteOffsets _ hpart, Source.byteAt_byteOffsets _ hwhole]
  show (String.ofList ((before ++ part ++ after).toList.take (i + before.length))).utf8ByteSize =
    (String.ofList (part.toList.take i)).utf8ByteSize + before.utf8ByteSize
  rw [htake, String.ofList_append, String.utf8ByteSize_append, String.ofList_toList, Nat.add_comm]

end ComponentMarkup.Text

namespace ComponentMarkup.Document

open ComponentMarkup.Text ComponentMarkup.Tree

/-- **A script is read where it stands as it is read alone**, whatever follows it, whatever stands before it
without ending in a dot, and from any entry point, known or not: the nodes are the same, and all places, that
of too deep a nesting included, are moved by the bytes in front of the script. -/
theorem scriptStretch_local (before part after entry : String)
    (hdot : Script.followsDot before.toList.reverse = false)
    (hlast : before.toList.getLast? ≠ some '.') :
    ∃ alone, parseStretch? .script part ⟨0, part.utf8ByteSize⟩ entry = some alone ∧
      parseStretch? .script (before ++ part ++ after)
          ⟨before.utf8ByteSize, before.utf8ByteSize + part.utf8ByteSize⟩ entry =
        some ⟨alone.value.mapPlaces (· + before.utf8ByteSize),
          alone.overflow.map (· + before.utf8ByteSize)⟩ := by
  let src := Source.ofString part
  let whole := Source.ofString (before ++ part ++ after)
  have hsize : src.size = part.length := Source.size_ofString part
  have hchars : whole.chars.toList = before.toList ++ (part.toList ++ after.toList) := by
    show (before ++ part ++ after).toList = _
    rw [String.toList_append, String.toList_append, List.append_assoc]
  -- where the script starts and stops, in characters
  have halone : placeAt? src.byteOffsets 0 = some 0 := by
    have hplace := placeAt_prefix "" part
    rwa [String.empty_append] at hplace
  have hend : placeAt? src.byteOffsets part.utf8ByteSize = some src.size := by
    have hplace := placeAt_prefix part ""
    rwa [String.append_empty, ← hsize] at hplace
  have hstart : placeAt? whole.byteOffsets before.utf8ByteSize = some before.length := by
    have hplace := placeAt_prefix before (part ++ after)
    rwa [← String.append_assoc] at hplace
  have hstop : placeAt? whole.byteOffsets (before.utf8ByteSize + part.utf8ByteSize) =
      some (before.length + src.size) := by
    have hplace := placeAt_prefix (before ++ part) after
    rwa [String.utf8ByteSize_append, String.length_append, ← hsize] at hplace
  -- what stands there
  have hbefore : Script.Neutral (whole.slice 0 before.length).reverse := by
    have hslice : whole.slice 0 before.length = before.toList := by
      rw [whole.slice_eq, hchars, Nat.sub_zero, List.drop_zero, ← String.length_toList, List.take_left]
    rw [hslice]
    refine .of_followsDot hdot ?_
    rwa [List.head?_reverse]
  have hpart : whole.slice before.length (before.length + src.size) = src.slice 0 src.size := by
    have hself : src.slice 0 src.size = part.toList := by
      rw [src.slice_eq, Nat.sub_zero, List.drop_zero]
      exact List.take_length
    rw [hself, whole.slice_eq, hchars, Nat.add_sub_cancel_left, hsize, ← String.length_toList,
      ← String.length_toList, List.drop_left, List.take_left]
  have hmoved := Script.readNamed_moved entry hbefore hpart
  have hfits : (Script.readNamed src src.whole entry).value.Fits src :=
    (Script.readNamed_fits entry (Nat.zero_le _) (Nat.le_refl _)).1
  have hbytes : ∀ i ≤ src.size, byteAt whole.byteOffsets (i + before.length) =
      byteAt src.byteOffsets i + before.utf8ByteSize :=
    fun i hi => Source.byteAt_within before part after (hsize ▸ hi)
  refine ⟨⟨(Script.readNamed src src.whole entry).value.inBytes src.byteOffsets,
    (Script.readNamed src src.whole entry).overflow.map (byteAt src.byteOffsets)⟩, ?_, ?_⟩
  · unfold parseStretch?
    simp only [src] at halone hend
    simp only [halone, hend]
    rfl
  · have hread : parseStretch? .script (before ++ part ++ after)
        ⟨before.utf8ByteSize, before.utf8ByteSize + part.utf8ByteSize⟩ entry =
          some ⟨(Script.readNamed whole ⟨before.length, before.length + src.size⟩ entry).value.inBytes
              whole.byteOffsets,
            (Script.readNamed whole ⟨before.length, before.length + src.size⟩ entry).overflow.map
              (byteAt whole.byteOffsets)⟩ := by
      unfold parseStretch?
      simp only [whole] at hstart hstop
      simp only [hstart, hstop]
      rfl
    rw [hread, hmoved.value, hmoved.overflow, Node.inBytes, Node.inBytes, Node.mapPlaces_mapPlaces,
      Node.mapPlaces_mapPlaces]
    refine congrArg some (congrArg₂ Limited.mk ?_ ?_)
    · exact hfits.mapPlaces_congr hbytes
    · rw [Option.map_map, Option.map_map]
      exact Option.map_congr fun place hplace => hbytes place (hmoved.within place hplace)

/-- A script behind a fence whose opening line says what it is for. -/
theorem scriptStretch_local_fence :
    ∃ alone, parseStretch? .script "f(x)" ⟨0, 4⟩ "statements" = some alone ∧
      parseStretch? .script ("%%% setup\n" ++ "f(x)" ++ "\n%%%") ⟨10, 14⟩ "statements" =
        some ⟨alone.value.mapPlaces (· + 10), alone.overflow.map (· + 10)⟩ :=
  scriptStretch_local "%%% setup\n" "f(x)" "\n%%%" "statements" (by decide +kernel) (by decide +kernel)

/-- A dot before the script does matter: behind one that ends the opening line of its fence, the declaration
`let x = 1` is read with a fault. -/
theorem scriptStretch_not_local :
    ¬ ∃ alone, parseStretch? .script "let x = 1" ⟨0, 9⟩ "statements" = some alone ∧
      parseStretch? .script ("%%% setup.\n" ++ "let x = 1" ++ "\n%%%") ⟨11, 20⟩ "statements" =
        some ⟨alone.value.mapPlaces (· + 11), alone.overflow.map (· + 11)⟩ := by
  have hclean : (parseStretch? .script "let x = 1" ⟨0, 9⟩ "statements").map
      (·.value.faulty) = some false := by decide +kernel
  have hfaulty : (parseStretch? .script ("%%% setup.\n" ++ "let x = 1" ++ "\n%%%") ⟨11, 20⟩
      "statements").map (·.value.faulty) = some true := by decide +kernel
  rintro ⟨alone, halone, hwhole⟩
  rw [halone] at hclean
  rw [hwhole, Option.map_some, Node.faulty_mapPlaces] at hfaulty
  have hboth : some true = some false := hfaulty.symm.trans hclean
  exact absurd (Option.some.inj hboth) (Ne.symm Bool.false_ne_true)

end ComponentMarkup.Document
