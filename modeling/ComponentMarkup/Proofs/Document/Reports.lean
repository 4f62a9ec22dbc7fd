import ComponentMarkup.Document.Diagnostic
import ComponentMarkup.Proofs.Program.Mappings
import ComponentMarkup.Proofs.Text.Positions

/-!
# Reports

A report tells every problem it is made of, and nothing else: sorting only reorders the problems, and of equal
diagnostics that follow each other one stays.  A problem with a stretch of the text is located: its diagnostic has
the line and the column where the stretch starts.

* `mem_ofFaults` — the diagnostics of a report are those of its problems;
* `ofFaults_ordered` — they are in the order of the text;
* `ofFaults_located` — they are located if the problems lie in the text.
-/

namespace ComponentMarkup.Document

open ComponentMarkup.Text ComponentMarkup.Tree

variable {text : String} {faults : List Fault}

/-- A diagnostic whose stretch lies between characters of a text and which tells the line and the column of its
start. -/
structure Diagnostic.Located (text : String) (d : Diagnostic) : Prop where
  le : d.fault.span.start ≤ d.fault.span.stop
  stop_le : d.fault.span.stop ≤ text.utf8ByteSize
  start : IsBoundary text d.fault.span.start
  stop : IsBoundary text d.fault.span.stop
  position : ∃ before after, text = before ++ after ∧ d.fault.span.start = before.utf8ByteSize ∧
    d.position = some (lineAt text.toList before.length, columnAt text.toList before.length)

/-- A problem with a stretch of a text is located. -/
theorem Diagnostic.locate_located {fault : Fault} {part : String} (h : HoldsBytes text fault.span part) :
    (locate (LineIndex.ofSource (.ofString text)) fault).Located text := by
  obtain ⟨before, after, htext, hspan⟩ := h
  have hstart : fault.span.start = before.utf8ByteSize := congrArg Span.start hspan
  have hstop : fault.span.stop = before.utf8ByteSize + part.utf8ByteSize := congrArg Span.stop hspan
  have hsize : text.utf8ByteSize = before.utf8ByteSize + part.utf8ByteSize + after.utf8ByteSize := by
    rw [htext, String.utf8ByteSize_append, String.utf8ByteSize_append]
  have hcut : text = before ++ (part ++ after) := by rw [htext, String.append_assoc]
  refine ⟨?_, ?_, ⟨before, part ++ after, hcut, hstart⟩, ⟨before ++ part, after, htext, ?_⟩,
    before, part ++ after, hcut, hstart, ?_⟩
  · show fault.span.start ≤ fault.span.stop
    omega
  · show fault.span.stop ≤ text.utf8ByteSize
    omega
  · rw [String.utf8ByteSize_append]
    exact hstop
  · have hposition := position?_prefix before (part ++ after)
    rw [← hcut, ← hstart] at hposition
    exact hposition

namespace Report

/-! ## Order -/

/-- The order of problems, by where they start and then by where they end. -/
def Ordered (a b : Fault) : Prop :=
  a.span.start < b.span.start ∨ a.span.start = b.span.start ∧ a.span.stop ≤ b.span.stop

theorem precedes_iff (a b : Fault) : precedes a b = true ↔ Ordered a b := by
  simp [precedes, Ordered]

theorem precedes_trans (a b c : Fault) (hab : precedes a b) (hbc : precedes b c) : precedes a c := by
  rw [precedes_iff] at *
  unfold Ordered at *
  omega

theorem precedes_total (a b : Fault) : (precedes a b || precedes b a) = true := by
  rw [Bool.or_eq_true, precedes_iff, precedes_iff]
  unfold Ordered
  omega

/-! ## Leaving out repetitions -/

section

variable {α : Type} [DecidableEq α]

theorem dropRepeated_sublist (as : List α) : (dropRepeated as).Sublist as := by
  fun_induction dropRepeated as with
  | case1 => exact .slnil
  | case2 a => exact .refl _
  | case3 a rest ih => exact ih.cons a
  | case4 a b rest hne ih => exact ih.cons_cons a

/-- Nothing is lost. -/
theorem mem_dropRepeated {a : α} {as : List α} : a ∈ dropRepeated as ↔ a ∈ as := by
  fun_induction dropRepeated as with
  | case1 => exact .rfl
  | case2 b => exact .rfl
  | case3 b rest ih =>
      rw [ih, List.mem_cons (a := a) (b := b) (l := b :: rest)]
      exact ⟨.inr, fun h => h.elim (fun heq => heq ▸ List.mem_cons_self) id⟩
  | case4 b c rest hne ih => rw [List.mem_cons, ih, List.mem_cons (b := b)]

end

/-! ## Reports of problems -/

/-- **The diagnostics of a report are those of its problems.** -/
theorem mem_ofFaults {d : Diagnostic} :
    d ∈ (ofFaults text faults).diagnostics ↔
      ∃ fault ∈ faults, Diagnostic.locate (LineIndex.ofSource (.ofString text)) fault = d := by
  rw [ofFaults, mem_dropRepeated, List.mem_map]
  exact exists_congr fun fault => and_congr_left fun _ => List.mem_mergeSort

/-- A report of some problem tells one. -/
theorem ofFaults_ne_nil (h : faults ≠ []) : (ofFaults text faults).diagnostics ≠ [] := by
  obtain ⟨fault, others, rfl⟩ := List.exists_cons_of_ne_nil h
  exact List.ne_nil_of_mem (mem_ofFaults.mpr ⟨fault, List.mem_cons_self, rfl⟩)

/-- **The diagnostics of a report are in the order of the text.** -/
theorem ofFaults_ordered (text : String) (faults : List Fault) :
    (ofFaults text faults).diagnostics.Pairwise fun a b => Ordered a.fault b.fault := by
  have hsorted : (faults.mergeSort precedes).Pairwise fun a b => precedes a b = true :=
    List.pairwise_mergeSort precedes_trans precedes_total faults
  refine List.Pairwise.sublist (dropRepeated_sublist _) (hsorted.map _ fun a b hab => ?_)
  exact (precedes_iff a b).mp hab

/-- **Problems with stretches of the text are located.** -/
theorem ofFaults_located (h : ∀ fault ∈ faults, ∃ part, HoldsBytes text fault.span part) :
    ∀ d ∈ (ofFaults text faults).diagnostics, d.Located text := by
  intro d hd
  obtain ⟨fault, hfault, rfl⟩ := mem_ofFaults.mp hd
  obtain ⟨part, hpart⟩ := h fault hfault
  exact Diagnostic.locate_located hpart

end Report

end ComponentMarkup.Document
