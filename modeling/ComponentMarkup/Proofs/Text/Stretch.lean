import ComponentMarkup.Text.Source

/-!
# Stretches of a text and what they hold

A stretch can be told by the characters before its ends or by the bytes before them.  `Source.Holds` says
that a stretch told in characters holds a text, `HoldsBytes` says so of one told in bytes, and `byteAt`
leads from the first to the second.

* `Source.slice_append`, `Source.slice_drop`, `Source.slice_take` — stretches are cut and joined;
* `Source.Holds.inBytes` — the ruler keeps what a stretch holds;
* `placeAt_prefix` — the end of a part of the text is found again from its number of bytes.
-/

namespace ComponentMarkup.Text

namespace Source

variable (src : Source)

/-- A stretch, told in characters, lies in the text and holds the given part of it. -/
def Holds (s : Span) (part : String) : Prop :=
  s.start ≤ s.stop ∧ s.stop ≤ src.size ∧ src.text s = part

/-! ## Slices -/

theorem slice_eq (i j : Nat) : src.slice i j = (src.chars.toList.drop i).take (j - i) := by
  simp [slice]

theorem length_slice {i j : Nat} (hj : j ≤ src.size) : (src.slice i j).length = j - i := by
  have hsize : src.chars.toList.length = src.size := rfl
  rw [slice_eq, List.length_take, List.length_drop, hsize]
  omega

theorem slice_self (i : Nat) : src.slice i i = [] := by
  rw [slice_eq, Nat.sub_self, List.take_zero]

theorem slice_append {i j k : Nat} (hij : i ≤ j) (hjk : j ≤ k) :
    src.slice i j ++ src.slice j k = src.slice i k := by
  obtain ⟨m, rfl⟩ : ∃ m, j = i + m := ⟨j - i, by omega⟩
  obtain ⟨n, rfl⟩ : ∃ n, k = i + m + n := ⟨k - (i + m), by omega⟩
  have hm : i + m - i = m := by omega
  have hn : i + m + n - (i + m) = n := by omega
  have hmn : i + m + n - i = m + n := by omega
  simp only [slice_eq, hm, hn, hmn, List.take_add, List.drop_drop]

theorem slice_drop (i j n : Nat) : (src.slice i j).drop n = src.slice (i + n) j := by
  rw [slice_eq, slice_eq, List.drop_take, List.drop_drop, Nat.sub_sub]

theorem slice_take {i j n : Nat} (h : i + n ≤ j) : (src.slice i j).take n = src.slice i (i + n) := by
  have hmin : min n (j - i) = i + n - i := by omega
  rw [slice_eq, slice_eq, List.take_take, hmin]

theorem slice_tail {i j : Nat} {c : Char} {cs : List Char} (h : src.slice i j = c :: cs) :
    src.slice (i + 1) j = cs := by
  rw [← slice_drop, h, List.drop_one, List.tail_cons]

/-- A slice that holds a character does not end where it starts. -/
theorem lt_of_slice_cons {i j : Nat} {c : Char} {cs : List Char} (h : src.slice i j = c :: cs) :
    i < j := by
  apply Nat.lt_of_not_le
  intro hle
  have hzero : j - i = 0 := by omega
  rw [slice_eq, hzero, List.take_zero] at h
  exact List.cons_ne_nil c cs h.symm

/-- A slice with a first character does not end where it starts. -/
theorem lt_of_head?_slice {i j : Nat} {c : Char} (h : (src.slice i j).head? = some c) : i < j := by
  cases hslice : src.slice i j with
  | nil => exact absurd h (by simp [hslice])
  | cons d ds => exact src.lt_of_slice_cons hslice

/-! ## What stretches hold -/

/-- Stretches that touch hold their texts one after the other. -/
theorem Holds.join {a b c : Nat} {first second : String} (hx : src.Holds ⟨a, b⟩ first)
    (hy : src.Holds ⟨b, c⟩ second) : src.Holds ⟨a, c⟩ (first ++ second) := by
  obtain ⟨hab, _, rfl⟩ := hx
  obtain ⟨hbc, hc, rfl⟩ := hy
  refine ⟨Nat.le_trans hab hbc, hc, ?_⟩
  simp only [text, ← String.ofList_append]
  rw [src.slice_append hab hbc]

theorem holds_text {a b : Nat} (hab : a ≤ b) (hb : b ≤ src.size) :
    src.Holds ⟨a, b⟩ (src.text ⟨a, b⟩) :=
  ⟨hab, hb, rfl⟩

theorem holds_empty {a : Nat} (ha : a ≤ src.size) : src.Holds ⟨a, a⟩ "" := by
  refine ⟨Nat.le_refl a, ha, ?_⟩
  rw [text, slice_self, String.ofList_nil]

/-- What a stretch holds is as long as the stretch. -/
theorem Holds.length_eq {s : Span} {part : String} (h : src.Holds s part) :
    part.length = s.stop - s.start := by
  obtain ⟨_, hstop, rfl⟩ := h
  rw [text, String.length_ofList, src.length_slice hstop]

end Source

/-! ## Bytes -/

/-- A stretch, told in bytes, lies in the text and holds the given part of it. -/
def HoldsBytes (text : String) (s : Span) (part : String) : Prop :=
  ∃ before after, text = before ++ part ++ after ∧
    s = ⟨before.utf8ByteSize, before.utf8ByteSize + part.utf8ByteSize⟩

/-- The entries of the ruler: the bytes of every beginning of the text. -/
theorem Source.getElem?_offsetsFrom (offset : Nat) (cs : List Char) {i : Nat} (hi : i ≤ cs.length) :
    (Source.offsetsFrom offset cs)[i]? =
      some (offset + (String.ofList (cs.take i)).utf8ByteSize) := by
  induction cs generalizing offset i with
  | nil =>
      obtain rfl : i = 0 := by simpa using hi
      simp [Source.offsetsFrom]
  | cons c cs ih =>
      cases i with
      | zero => simp [Source.offsetsFrom]
      | succ i =>
          have hrest := ih (offset + c.utf8Size) (i := i) (by simpa using hi)
          simp only [Source.offsetsFrom, List.getElem?_cons_succ, hrest, List.take_succ_cons,
            String.ofList_cons, String.utf8ByteSize_append, String.utf8ByteSize_singleton]
          rw [Nat.add_assoc]

/-- The ruler has an entry for every place, the end of the text included. -/
theorem Source.length_offsetsFrom (offset : Nat) (cs : List Char) :
    (Source.offsetsFrom offset cs).length = cs.length + 1 := by
  induction cs generalizing offset with
  | nil => rfl
  | cons c cs ih => rw [Source.offsetsFrom, List.length_cons, ih, List.length_cons]

/-- The ruler tells the bytes before a place. -/
theorem Source.byteAt_byteOffsets (src : Source) {place : Nat} (h : place ≤ src.size) :
    byteAt src.byteOffsets place = (String.ofList (src.chars.toList.take place)).utf8ByteSize := by
  have hlen : place ≤ src.chars.toList.length := h
  have hget := Source.getElem?_offsetsFrom 0 src.chars.toList hlen
  simp only [byteAt, Source.byteOffsets, Array.getD_eq_getD_getElem?, List.getElem?_toArray, hget,
    Option.getD_some, Nat.zero_add]

theorem Source.size_ofString (text : String) : (Source.ofString text).size = text.length :=
  String.length_toList

/-- A part of a text lies in it. -/
theorem part_within (before part after : String) :
    before.length ≤ (before ++ part).length ∧
      (before ++ part).length ≤ (Source.ofString (before ++ part ++ after)).size := by
  rw [Source.size_ofString, String.length_append, String.length_append (before ++ part), String.length_append]
  omega

/-- The ruler tells the bytes of a whole text. -/
theorem Source.byteAt_size (text : String) :
    byteAt (Source.ofString text).byteOffsets (Source.ofString text).size = text.utf8ByteSize := by
  rw [Source.byteAt_byteOffsets _ (Nat.le_refl _)]
  exact congrArg String.utf8ByteSize
    ((congrArg String.ofList (List.take_length (l := text.toList))).trans String.ofList_toList)

/-- **The ruler keeps what stretches hold.** -/
theorem Source.Holds.inBytes {text : String} {s : Span} {part : String}
    (h : (Source.ofString text).Holds s part) :
    HoldsBytes text ⟨byteAt (Source.ofString text).byteOffsets s.start,
      byteAt (Source.ofString text).byteOffsets s.stop⟩ part := by
  obtain ⟨hle, hstop, rfl⟩ := h
  have hlist : (Source.ofString text).chars.toList = text.toList := rfl
  have htext : text.toList = text.toList.take s.start ++
      (text.toList.drop s.start).take (s.stop - s.start) ++ text.toList.drop s.stop := by
    rw [← List.take_add, Nat.add_sub_cancel' hle, List.take_append_drop]
  refine ⟨String.ofList (text.toList.take s.start), String.ofList (text.toList.drop s.stop), ?_, ?_⟩
  · rw [Source.text, Source.slice_eq, hlist, ← String.ofList_append, ← String.ofList_append, ← htext,
      String.ofList_toList]
  · rw [Source.byteAt_byteOffsets _ (Nat.le_trans hle hstop), Source.byteAt_byteOffsets _ hstop,
      Source.text, Source.slice_eq, hlist, ← String.utf8ByteSize_append, ← String.ofList_append,
      ← List.take_add, Nat.add_sub_cancel' hle]

/-- Beginnings of a text with as many bytes are equal. -/
theorem eq_of_append_eq {a b c d : String} (h : a ++ b = c ++ d)
    (hsize : a.utf8ByteSize = c.utf8ByteSize) : a = c ∧ b = d := by
  have hlist : a.toList ++ b.toList = c.toList ++ d.toList := by
    rw [← String.toList_append, ← String.toList_append, h]
  have hempty : ∀ {x y : String} {e : List Char}, y.toList = x.toList ++ e →
      x.utf8ByteSize = y.utf8ByteSize → e = [] := by
    intro x y e hy hxy
    have hyx : y = x ++ String.ofList e := by
      rw [← String.toList_inj, String.toList_append, String.toList_ofList, hy]
    rw [hyx, String.utf8ByteSize_append] at hxy
    have hzero : (String.ofList e).utf8ByteSize = 0 := by omega
    have hnil := String.utf8ByteSize_eq_zero_iff.mp hzero
    rw [← String.toList_ofList (l := e), hnil]
    rfl
  rcases List.append_eq_append_iff.mp hlist with ⟨e, hc, hb⟩ | ⟨e, ha, hd⟩
  · obtain rfl := hempty hc hsize
    rw [List.append_nil] at hc
    exact ⟨(String.toList_inj.mp hc).symm, String.toList_inj.mp hb⟩
  · obtain rfl := hempty ha hsize.symm
    rw [List.append_nil] at ha
    exact ⟨String.toList_inj.mp ha, (String.toList_inj.mp hd).symm⟩

/-- Stretches that touch hold their texts one after the other. -/
theorem HoldsBytes.join {text : String} {a b c : Nat} {first second : String}
    (hx : HoldsBytes text ⟨a, b⟩ first) (hy : HoldsBytes text ⟨b, c⟩ second) :
    HoldsBytes text ⟨a, c⟩ (first ++ second) := by
  obtain ⟨before, after, htext, hs⟩ := hx
  obtain ⟨before', after', htext', hs'⟩ := hy
  obtain ⟨rfl, rfl⟩ := Span.mk.injEq .. ▸ hs
  obtain ⟨hb, rfl⟩ := Span.mk.injEq .. ▸ hs'
  have heq : (before ++ first) ++ after = before' ++ (second ++ after') := by
    rw [← htext, htext', String.append_assoc]
  obtain ⟨rfl, rfl⟩ := eq_of_append_eq heq (by rw [String.utf8ByteSize_append]; exact hb)
  refine ⟨before, after', ?_, ?_⟩
  · rw [htext]
    simp only [String.append_assoc]
  · simp only [String.utf8ByteSize_append, Nat.add_assoc]

/-- A stretch holds one text only. -/
theorem HoldsBytes.unique {text first second : String} {s : Span} (hx : HoldsBytes text s first)
    (hy : HoldsBytes text s second) : first = second := by
  obtain ⟨before, after, htext, hs⟩ := hx
  obtain ⟨before', after', htext', hs'⟩ := hy
  obtain ⟨hstart, hstop⟩ := Span.mk.injEq .. ▸ hs.symm.trans hs'
  have heq : before ++ (first ++ after) = before' ++ (second ++ after') := by
    rw [← String.append_assoc, ← htext, htext', String.append_assoc]
  obtain ⟨rfl, hrest⟩ := eq_of_append_eq heq hstart
  exact (eq_of_append_eq hrest (by omega)).1

/-- The stretch over a whole text. -/
theorem holdsBytes_whole (text : String) : HoldsBytes text ⟨0, text.utf8ByteSize⟩ text := by
  refine ⟨"", "", ?_, ?_⟩
  · rw [String.empty_append, String.append_empty]
  · rw [String.utf8ByteSize_empty, Nat.zero_add]

/-! ## Finding places again -/

/-- Halving finds the border between the points that are at most `n` and those above it. -/
theorem halve_border {points : Array Nat} {n : Nat}
    (hmono : ∀ i j, i ≤ j → j < points.size → points.getD i 0 ≤ points.getD j 0) :
    ∀ fuel low high : Nat, low ≤ high → high ≤ points.size → high - low ≤ fuel →
      (∀ i, i < low → points.getD i 0 ≤ n) →
      (∀ i, high ≤ i → i < points.size → n < points.getD i 0) →
      halve points n fuel low high ≤ points.size ∧
        (∀ i, i < halve points n fuel low high → points.getD i 0 ≤ n) ∧
        ∀ i, halve points n fuel low high ≤ i → i < points.size → n < points.getD i 0 := by
  intro fuel
  induction fuel with
  | zero =>
      intro low high hle hsize hfuel hlow hhigh
      obtain rfl : high = low := by omega
      exact ⟨hsize, hlow, hhigh⟩
  | succ fuel ih =>
      intro low high hle hsize hfuel hlow hhigh
      by_cases hlt : low < high
      · by_cases hmid : points.getD ((low + high) / 2) 0 ≤ n
        · simp only [halve, if_pos hlt, if_pos hmid]
          refine ih _ _ (by omega) hsize (by omega) ?_ hhigh
          intro i hi
          exact Nat.le_trans (hmono i ((low + high) / 2) (by omega) (by omega)) hmid
        · simp only [halve, if_pos hlt, if_neg hmid]
          refine ih _ _ (by omega) (by omega) (by omega) hlow ?_
          intro i hi hisize
          have hup := hmono ((low + high) / 2) i hi hisize
          omega
      · simp only [halve, if_neg hlt]
        obtain rfl : high = low := by omega
        exact ⟨hsize, hlow, hhigh⟩

/-- An entry of an increasing array is found by counting up to it. -/
theorem countUpTo_getD {points : Array Nat} (hmono : ∀ i j, i < j → j < points.size →
    points.getD i 0 < points.getD j 0) {k : Nat} (hk : k < points.size) :
    countUpTo points (points.getD k 0) = k + 1 := by
  have hweak : ∀ i j, i ≤ j → j < points.size → points.getD i 0 ≤ points.getD j 0 := by
    intro i j hij hj
    rcases Nat.lt_or_eq_of_le hij with h | rfl
    · exact Nat.le_of_lt (hmono i j h hj)
    · exact Nat.le_refl _
  obtain ⟨hsize, hbelow, habove⟩ := halve_border (n := points.getD k 0) hweak points.size 0
    points.size (by omega) (by omega) (by omega) (by omega) (by omega)
  unfold countUpTo
  apply Nat.le_antisymm
  · apply Nat.le_of_not_lt
    intro hlt
    exact absurd (hbelow _ hlt) (Nat.not_le_of_lt (hmono k (k + 1) (by omega) (by omega)))
  · apply Nat.le_of_not_lt
    intro hlt
    exact absurd (habove k (by omega) hk) (Nat.lt_irrefl _)

/-- A longer beginning of a text takes more bytes. -/
theorem utf8ByteSize_take_lt {cs : List Char} {i j : Nat} (hij : i < j) (hj : j ≤ cs.length) :
    (String.ofList (cs.take i)).utf8ByteSize < (String.ofList (cs.take j)).utf8ByteSize := by
  obtain ⟨d, rfl⟩ : ∃ d, j = i + (d + 1) := ⟨j - i - 1, by omega⟩
  have hne : (cs.drop i).take (d + 1) ≠ [] := by
    intro h
    have hlen := congrArg List.length h
    rw [List.length_take, List.length_drop, List.length_nil] at hlen
    omega
  obtain ⟨c, rest, hrest⟩ := List.exists_cons_of_ne_nil hne
  have hc := c.utf8Size_pos
  rw [List.take_add, String.ofList_append, String.utf8ByteSize_append, hrest, String.ofList_cons,
    String.utf8ByteSize_append, String.utf8ByteSize_singleton]
  omega

/-- **The end of a beginning of the text is found again from its bytes.** -/
theorem placeAt_prefix (before after : String) :
    placeAt? (Source.ofString (before ++ after)).byteOffsets before.utf8ByteSize =
      some before.length := by
  let src := Source.ofString (before ++ after)
  have hchars : src.chars.toList = before.toList ++ after.toList := String.toList_append
  have hlength : src.chars.toList.length = before.length + after.length := by
    rw [hchars, List.length_append, String.length_toList, String.length_toList]
  have hsize : src.byteOffsets.size = src.chars.toList.length + 1 :=
    Source.length_offsetsFrom 0 src.chars.toList
  have hget : ∀ i, i ≤ src.chars.toList.length →
      src.byteOffsets[i]? = some (String.ofList (src.chars.toList.take i)).utf8ByteSize := by
    intro i hi
    have h := Source.getElem?_offsetsFrom 0 src.chars.toList hi
    rw [Nat.zero_add] at h
    simpa only [Source.byteOffsets, List.getElem?_toArray] using h
  have hplace : src.byteOffsets[before.length]? = some before.utf8ByteSize := by
    rw [hget _ (by omega), hchars, ← String.length_toList, List.take_left, String.ofList_toList]
  have hcount : countUpTo src.byteOffsets before.utf8ByteSize = before.length + 1 := by
    have hd : src.byteOffsets.getD before.length 0 = before.utf8ByteSize := by
      rw [Array.getD_eq_getD_getElem?, hplace, Option.getD_some]
    rw [← hd]
    refine countUpTo_getD ?_ (by omega)
    intro i j hij hj
    rw [Array.getD_eq_getD_getElem?, Array.getD_eq_getD_getElem?, hget i (by omega),
      hget j (by omega)]
    exact utf8ByteSize_take_lt hij (by omega)
  unfold placeAt?
  simp only [src] at hcount hplace
  simp only [hcount, Nat.add_sub_cancel, hplace, if_pos]

/-- The bytes before a place that was found by its bytes. -/
theorem byteAt_of_placeAt? {offsets : Array Nat} {byte place : Nat}
    (h : placeAt? offsets byte = some place) : byteAt offsets place = byte := by
  unfold placeAt? at h
  dsimp only at h
  split at h
  · rename_i hget
    obtain rfl := Option.some.inj h
    rw [byteAt, Array.getD_eq_getD_getElem?, hget, Option.getD_some]
  · exact absurd h (by simp)

end ComponentMarkup.Text
