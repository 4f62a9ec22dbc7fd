import ComponentMarkup.Proofs.Document.Reports
import ComponentMarkup.Proofs.Render.Gathered
import ComponentMarkup.Proofs.Render.SourceMaps

/-!
# Failures

A text that is not compiled is nested too deep, has faults in its tree or cannot be rendered as it should.  In all
three cases the report tells at least one problem, and every problem lies where the tree has a node or where nesting
got too deep: between characters of the text.

* `faults_within` — the faults of a tree have the stretches of its nodes;
* `parse_error_holds` — a text that is nested too deep is so at one of its places;
* `compile_located` — every diagnostic of a report is located.
-/

namespace ComponentMarkup.Tree.Node

mutual

/-- Every fault of a tree has the stretch of a node of the tree. -/
theorem faults_within : ∀ (root : Node) {fault : Fault}, fault ∈ root.faults → ∃ n, Within root n ∧ fault.span = n.span
  | leaf _ _ _, _, h => absurd h List.not_mem_nil
  | fault m hs t s, _, h => ⟨.fault m hs t s, .root, congrArg Fault.span (List.mem_singleton.mp h)⟩
  | inner k s host c b cs, _, h => by
      rw [faults] at h
      split at h
      · obtain ⟨child, hchild, n, hn, hspan⟩ := faultsOf_within cs h
        exact ⟨n, (Within.root.child hchild).trans hn, hspan⟩
      · exact absurd h List.not_mem_nil

/-- Every fault of several trees has the stretch of a node of one of them. -/
theorem faultsOf_within : ∀ (ns : List Node) {fault : Fault}, fault ∈ faultsOf ns →
    ∃ child ∈ ns, ∃ n, Within child n ∧ fault.span = n.span
  | [], _, h => absurd h List.not_mem_nil
  | c :: cs, _, h => by
      rw [faultsOf, List.mem_append] at h
      rcases h with h | h
      · split at h
        · exact ⟨c, List.mem_cons_self, faults_within c h⟩
        · exact absurd h List.not_mem_nil
      · obtain ⟨child, hchild, hn⟩ := faultsOf_within cs h
        exact ⟨child, List.mem_cons_of_mem c hchild, hn⟩

end

end ComponentMarkup.Tree.Node

namespace ComponentMarkup

open ComponentMarkup.Text ComponentMarkup.Tree ComponentMarkup.Document ComponentMarkup.Program
open ComponentMarkup.Render

variable {text : String} {settings : Settings} {root : Node} {report : Report}

/-- Whatever place it is for, the ruler gives a border between characters. -/
theorem byteAt_holds (text : String) (place : Nat) :
    HoldsBytes text ⟨byteAt (Source.ofString text).byteOffsets place, byteAt (Source.ofString text).byteOffsets place⟩ "" := by
  have hinside : ∀ p, p ≤ (Source.ofString text).size → HoldsBytes text
      ⟨byteAt (Source.ofString text).byteOffsets p, byteAt (Source.ofString text).byteOffsets p⟩ "" :=
    fun p hp => (Source.holds_empty _ hp).inBytes
  rcases Nat.lt_or_ge (Source.ofString text).size place with hbehind | hinner
  · -- a place behind the text has the offset of its end
    have hend : byteAt (Source.ofString text).byteOffsets place =
        byteAt (Source.ofString text).byteOffsets (Source.ofString text).size := by
      have hcount : (Source.ofString text).byteOffsets.size = (Source.ofString text).size + 1 :=
        Source.length_offsetsFrom 0 _
      have hnone : (Source.ofString text).byteOffsets[place]? = none := Array.getElem?_eq_none (by omega)
      simp only [byteAt, Array.getD_eq_getD_getElem?, hnone, hcount, Nat.add_sub_cancel, Option.getD_none]
      rw [Array.getElem?_eq_getElem (by omega), Option.getD_some, Option.getD_some]
    rw [hend]
    exact hinside _ (Nat.le_refl _)
  · exact hinside place hinner

/-- **A text that cannot be read is nested too deep at one of its places.** -/
theorem parse_error_holds {e : ParseError} (h : parse text = .error e) : HoldsBytes text e.fault.span "" := by
  have hplace : ∃ place what, e = .atPlace (.ofString text) place what := by
    have hsource : parseSource .standard (.ofString text) = .error e := by
      unfold parse parseWith at h
      dsimp only at h
      cases hparsed : parseSource .standard (.ofString text) with
      | error other => rw [hparsed] at h; exact h
      | ok root => rw [hparsed] at h; cases h
    unfold parseSource at hsource
    split at hsource
    · cases hsource
      exact ⟨_, _, rfl⟩
    · dsimp only at hsource
      split at hsource
      · cases hsource
        exact ⟨_, _, rfl⟩
      · cases hsource
  obtain ⟨place, what, rfl⟩ := hplace
  exact byteAt_holds text place

/-- What is reported when a text is not compiled: some problem, and only problems with stretches of the text. -/
theorem compile_error (h : compile text settings = .error report) :
    ∃ faults, report = .ofFaults text faults ∧ faults ≠ [] ∧
      ∀ fault ∈ faults, ∃ part, HoldsBytes text fault.span part := by
  unfold compile at h
  split at h
  · rename_i e hparse
    cases h
    refine ⟨_, rfl, List.cons_ne_nil _ _, fun fault hfault => ⟨"", ?_⟩⟩
    obtain rfl := List.mem_singleton.mp hfault
    exact parse_error_holds hparse
  · rename_i root hparse
    have hholds : ∀ fault : Fault, (∃ n, Node.Within root n ∧ fault.span = n.span) →
        ∃ part, HoldsBytes text fault.span part := by
      rintro fault ⟨n, hn, hspan⟩
      exact ⟨n.fullText, hspan ▸ within_holds hparse hn⟩
    unfold compileTree at h
    split at h
    · rename_i nodes hfaults hview
      dsimp only at h
      split at h
      · cases h
      · rename_i hproblems
        cases h
        refine ⟨_, rfl, fun hnil => hproblems (List.isEmpty_iff.mpr hnil), fun fault hfault => ?_⟩
        have haccounted := renderDocument_accounted settings root.height (view?_within .root hview)
        exact hholds fault (haccounted.problems fault hfault)
    · cases h
      refine ⟨_, rfl, List.cons_ne_nil _ _, fun fault hfault => hholds fault ⟨root, .root, ?_⟩⟩
      exact congrArg Fault.span (List.mem_singleton.mp hfault)
    · rename_i hnonempty _
      cases h
      exact ⟨_, rfl, fun hnil => hnonempty hnil, fun fault hfault => hholds fault (root.faults_within hfault)⟩

/-- **Failures are located.**  The report of a text that is not compiled has diagnostics.  All of them lie between
characters of the text and tell the line and the column where they start, and they are in the order of the text. -/
theorem compile_located (h : compile text settings = .error report) :
    report.diagnostics ≠ [] ∧ (∀ d ∈ report.diagnostics, d.Located text) ∧
      report.diagnostics.Pairwise fun a b => Report.Ordered a.fault b.fault := by
  obtain ⟨faults, rfl, hne, hholds⟩ := compile_error h
  exact ⟨Report.ofFaults_ne_nil hne, Report.ofFaults_located hholds, Report.ofFaults_ordered text faults⟩

/-- A name is missing on the third line of a text. -/
theorem compile_located_name : ∃ report, compile "é\n\n% let = 1" {} = .error report ∧
    (∀ d ∈ report.diagnostics, d.Located "é\n\n% let = 1") ∧
    ∃ d ∈ report.diagnostics, d.fault.span = ⟨9, 9⟩ ∧ d.position = some (2, 5) := by
  have hfails : (match compile "é\n\n% let = 1" {} with
      | .error report => report.diagnostics.any fun d => d.fault.span == ⟨9, 9⟩ && d.position == some (2, 5)
      | .ok _ => false) = true := by decide +kernel
  cases h : compile "é\n\n% let = 1" {} with
  | ok compiled =>
      rw [h] at hfails
      exact absurd hfails Bool.false_ne_true
  | error report =>
      rw [h] at hfails
      obtain ⟨d, hd, hwhere⟩ := List.any_eq_true.mp hfails
      obtain ⟨hspan, hposition⟩ := Bool.and_eq_true_iff.mp hwhere
      exact ⟨report, rfl, (compile_located h).2.1, d, hd, beq_iff_eq.mp hspan, beq_iff_eq.mp hposition⟩

end ComponentMarkup
