import ComponentMarkup.Proofs.Text.Scan
import ComponentMarkup.Proofs.Text.Stretch
import Mathlib.Data.List.Basic
import Mathlib.Data.List.TakeWhile

/-!
# Characters of slices

A slice holds the characters at the places between its ends.  So what a test says about the characters of a slice it
says about places, and a run at the start of a slice is a slice again.

* `Source.mem_slice` — the characters of a slice by their places;
* `Source.slice_runLength` — a run of characters is a slice.
-/

namespace ComponentMarkup.Text.Source

variable {src : Source} {i j k p : Nat} {c : Char}

/-- A slice has no more characters than there are places between its ends. -/
theorem length_slice_le (src : Source) (i j : Nat) : (src.slice i j).length ≤ j - i := by
  rw [slice_eq, List.length_take]
  exact Nat.min_le_left _ _

/-- The characters of a slice, one by one. -/
theorem getElem?_slice (h : i + k < j) : (src.slice i j)[k]? = src.chars[i + k]? := by
  have hlt : k < j - i := by omega
  rw [slice_eq, List.getElem?_take_of_lt hlt, List.getElem?_drop, Array.getElem?_toList]

/-- The first character of a slice. -/
theorem head?_slice (h : i < j) : (src.slice i j).head? = src.chars[i]? := by
  rw [List.head?_eq_getElem?, getElem?_slice (Nat.add_zero i ▸ h), Nat.add_zero]

/-- A slice ends with the last character of its last part. -/
theorem getLast?_slice {cs : List Char} (h : src.slice j k = cs) (hne : cs ≠ []) (hij : i ≤ j) (hjk : j ≤ k) :
    (src.slice i k).getLast? = cs.getLast? := by
  rw [← src.slice_append hij hjk, h, List.getLast?_append_of_ne_nil _ hne]

/-- The characters of a slice are those at the places between its ends. -/
theorem mem_slice : c ∈ src.slice i j ↔ ∃ p, i ≤ p ∧ p < j ∧ src.chars[p]? = some c := by
  rw [List.mem_iff_getElem?]
  constructor
  · rintro ⟨k, hk⟩
    have hlt : k < (src.slice i j).length := (List.getElem?_eq_some_iff.mp hk).1
    have hbound := src.length_slice_le i j
    have hin : i + k < j := by omega
    exact ⟨i + k, Nat.le_add_right i k, hin, getElem?_slice hin ▸ hk⟩
  · rintro ⟨p, hfrom, hto, hp⟩
    refine ⟨p - i, ?_⟩
    rw [getElem?_slice (by omega), Nat.add_sub_cancel' hfrom]
    exact hp

/-- A run at the start of a slice is a slice. -/
theorem slice_runLength (src : Source) (test : Char → Bool) (h : i ≤ j) :
    src.slice i (i + runLength test (src.slice i j)) = (src.slice i j).takeWhile test := by
  have hrun := runLength_le test (src.slice i j)
  have hlength := src.length_slice_le i j
  have hwithin : i + runLength test (src.slice i j) ≤ j := by omega
  rw [← src.slice_take hwithin]
  exact (List.prefix_iff_eq_take.mp (List.takeWhile_prefix test)).symm

/-- A run ends before it comes to the end of what it is taken from. -/
theorem runLength_slice_le (src : Source) (test : Char → Bool) (h : i ≤ j) :
    i + runLength test (src.slice i j) ≤ j := by
  have hrun := runLength_le test (src.slice i j)
  have hlength := src.length_slice_le i j
  omega

/-- The first characters of a slice are a slice. -/
theorem slice_prefix {xs ys : List Char} (h : src.slice i j = xs ++ ys) : src.slice i (i + xs.length) = xs := by
  by_cases hnil : xs = []
  · rw [hnil]
    exact src.slice_self i
  · have hlength := src.length_slice_le i j
    have hpos := List.length_pos_iff.mpr hnil
    rw [h, List.length_append] at hlength
    have hwithin : i + xs.length ≤ j := by omega
    rw [← src.slice_take hwithin, h, List.take_left]

/-- The characters of a run satisfy its test. -/
theorem of_runLength {test : Char → Bool} (hp : i ≤ p) (hrun : p < i + runLength test (src.slice i j))
    (hc : src.chars[p]? = some c) : test c = true := by
  by_cases hij : i ≤ j
  · have hmem : c ∈ src.slice i (i + runLength test (src.slice i j)) := mem_slice.mpr ⟨p, hp, hrun, hc⟩
    rw [slice_runLength src test hij] at hmem
    exact List.mem_takeWhile_imp hmem
  · have hnil : src.slice i j = [] := by
      rw [slice_eq, Nat.sub_eq_zero_of_le (Nat.le_of_not_le hij), List.take_zero]
    rw [hnil] at hrun
    exact absurd hp (Nat.not_le.mpr hrun)

end ComponentMarkup.Text.Source
