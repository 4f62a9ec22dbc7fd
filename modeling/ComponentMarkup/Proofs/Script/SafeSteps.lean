import ComponentMarkup.Proofs.Script.GrammarTiling

/-!
# Steps that rely on something

Some steps of the parser rely on what was looked at before: that the current token is of a kind, that it is no fault,
that the white space in front of it is among the nodes, or that the nodes of an earlier parser are still there.  A
parser that is reached by steps which find what they rely on is always one of which the next step can rely on the rest:
its white space is among its nodes, whatever was wrapped, dropped or taken back in between.

* `Reached` — a parser that is reached by such steps from the start of a stretch;
* `Reached.sound` — the tiling of the text by nodes is kept, also by going back;
* `Reached.trivia_le`, `Reached.not_fault` — what the next step may rely on;
* `Reached.intact` — none of the steps has failed to find what it relied on.
-/

namespace ComponentMarkup.Script

open ComponentMarkup.Text ComponentMarkup.Tree

variable {src : Source} {s : Span} {p : Parser} {k : ScriptKind}

/-- **A parser that is reached by steps that find what they rely on**: a token that is taken as one of a known kind is
of this kind, one that gets another kind is no fault, and the nodes of a parser to which one goes back, or since which
nodes are remembered, are still there.  The stretch that is read lies in the text. -/
inductive Reached (src : Source) (s : Span) : Parser → Prop where
  | start (hle : s.start ≤ s.stop) (hstop : s.stop ≤ src.size) : Reached src s (.ofSpan src s)
  | eat {p : Parser} (h : Reached src s p) : Reached src s p.eat
  | eatKnown {p : Parser} (h : Reached src s p) {k : ScriptKind} (hat : p.isAt k = true) : Reached src s (p.eatKnown k)
  | eatWithKind {p : Parser} (h : Reached src s p) (k : ScriptKind) (hfault : p.current.node.isFault = false) :
      Reached src s (p.eatWithKind k)
  | wrap {p : Parser} (h : Reached src s p) (mark : Nat) (kind : ScriptKind) : Reached src s (p.wrap mark kind)
  | expected {p : Parser} (h : Reached src s p) (thing : String) : Reached src s (p.expected thing)
  | trimFaults {p : Parser} (h : Reached src s p) : Reached src s p.trimFaults
  | eatFault {p : Parser} (h : Reached src s p) (message : String) :
      Reached src s (p.eatAs (Parser.faultOf p.current.node message))
  | eatHinted {p : Parser} (h : Reached src s p) (message text : String) :
      Reached src s (p.eatAs ((Parser.faultOf p.current.node message).hint text))
  | closeAt {p : Parser} (h : Reached src s p) (mark : Nat) (k : ScriptKind) : Reached src s (p.closeAt mark k)
  | deeper {p : Parser} (h : Reached src s p) : Reached src s { p with depth := p.depth + 1 }
  | tooDeep {p : Parser} (h : Reached src s p) :
      Reached src s { p with overflow := Limited.first p.overflow (some p.current.node.start) }
  | leave {p : Parser} (h : Reached src s p) : Reached src s p.leave
  | rewind {earlier later : Parser} (h : Reached src s earlier) (h' : Reached src s later)
      (hkept : earlier.nodes.toList <+: later.nodes.toList) : Reached src s (later.rewind earlier)
  | replay {p : Parser} (h : Reached src s p) {group : ArrowGroup} (hknown : p.knownArrow? = some group) :
      Reached src s (p.replay group)
  | remember {earlier later : Parser} (h : Reached src s earlier) (h' : Reached src s later)
      (hkept : earlier.nodes.toList <+: later.nodes.toList) (hmark : earlier.mark ≤ later.markBeforeTrivia) :
      Reached src s (later.remember earlier.current.node.start earlier.mark)

namespace Reached

/-! ## What holds of all of them -/

/-- **The nodes always cover the text** up to the current token. -/
theorem sound (h : Reached src s p) : p.Sound src s [] := by
  induction h with
  | start hle hstop => exact .ofSpan hle hstop
  | eat _ ih => exact ih.eat
  | eatKnown _ _ ih => exact ih.eatKnown _
  | eatWithKind _ k _ ih => exact ih.eatWithKind k
  | wrap _ mark kind ih => exact ih.wrap (Nat.zero_le mark) kind
  | expected _ thing ih => exact ih.expected thing
  | trimFaults _ ih => exact ih.trimFaults
  | eatFault _ message ih =>
      obtain ⟨hfits, hspan⟩ := Parser.Sound.faultOf_spec ih.stands.fits message
      exact ih.eatAs hfits hspan
  | eatHinted _ message text ih =>
      obtain ⟨hfits, hspan⟩ := Parser.Sound.faultOf_spec ih.stands.fits message
      obtain ⟨hfits', hspan'⟩ := Parser.Sound.hint_spec hfits text
      exact ih.eatAs hfits' (hspan'.trans hspan)
  | closeAt _ mark k ih => exact ih.closeAt (Nat.zero_le mark) k
  | deeper _ ih => exact ⟨ih.reads, ih.stands, ih.start_eq, ih.solid, ih.nodes, ih.arrows⟩
  | tooDeep _ ih => exact ⟨ih.reads, ih.stands, ih.start_eq, ih.solid, ih.nodes, ih.arrows⟩
  | leave _ ih => exact ih.leave
  | rewind _ _ hkept ih ih' =>
      refine ⟨ih.reads, ih.stands, ih'.start_eq, ih.solid, ?_, ih'.arrows⟩
      rw [Parser.Sound.rewind_kept hkept]
      exact ih.nodes
  | replay _ hknown ih => exact ih.replay hknown
  | @remember earlier later _ _ hkept hmark ih ih' =>
      -- The earlier nodes end before the white space of the later token, so they start what leads to it.
      obtain ⟨kept, trivia, hnodes, htrivia, hrun, hlast⟩ := ih'.nodes
      rw [List.nil_append] at hnodes hrun
      have hbefore := (Parser.Sound.markBeforeTrivia_eq hnodes htrivia).1
      have hlength : earlier.nodes.toList.length ≤ kept.length := by
        rw [Array.length_toList, ← hbefore]
        exact hmark
      rw [hnodes] at hkept
      obtain ⟨more, rfl⟩ := List.prefix_of_prefix_length_le hkept (List.prefix_append kept trivia) hlength
      have hlead : LeadTo src s.start (earlier.nodes.toList ++ more) later.current later.nodes.toList :=
        ⟨[], trivia, by rw [hnodes, List.append_nil], htrivia, by rw [List.append_nil]; exact hrun, hlast⟩
      exact ih.remember hlead ih'

/-- **The white space in front of the current token is among the nodes**, in every parser that is reached. -/
theorem trivia_le (h : Reached src s p) : p.current.trivia ≤ p.nodes.size := by
  obtain ⟨kept, trivia, hnodes, htrivia, -⟩ := h.sound.nodes
  rw [← Array.length_toList, hnodes, List.length_append, htrivia]
  exact Nat.le_add_left _ _

/-- A token that is seen to be of a kind is no fault. -/
theorem not_fault (h : Reached src s p) (hat : p.isAt k = true) : p.current.node.isFault = false := by
  rw [Node.isFault, ← h.sound.stands.kind_eq, eq_of_beq hat]
  rfl

theorem not_fault_any (h : Reached src s p) {ks : List ScriptKind} (hat : p.isAtAny ks = true) :
    p.current.node.isFault = false := by
  obtain ⟨k, -, hkind⟩ := isAtAny_kind hat
  exact h.not_fault (Parser.isAt_of_kind? hkind)

/-- What is recorded about the white space is that it is there. -/
theorem check_trivia (h : Reached src s p) (hintact : p.intact = true) :
    (p.check (p.current.trivia ≤ p.nodes.size)).intact = true := by
  show (p.intact && decide (p.current.trivia ≤ p.nodes.size)) = true
  rw [hintact, decide_eq_true h.trivia_le, Bool.and_self]

/-- **No step has failed to find what it relied on.** -/
theorem intact (h : Reached src s p) : p.intact = true := by
  induction h with
  | start => rfl
  | eat _ ih => exact ih
  | @eatKnown p _ k hat ih =>
      show (p.intact && p.isAt k) = true
      rw [ih, hat, Bool.and_self]
  | @eatWithKind p _ k hfault ih =>
      show (p.intact && !p.current.node.isFault) = true
      rw [ih, hfault]
      rfl
  | wrap h _ _ ih => exact h.check_trivia ih
  | expected h thing ih =>
      unfold Parser.expected
      dsimp only
      split
      · exact h.check_trivia ih
      · exact h.check_trivia ih
  | trimFaults h ih => exact h.check_trivia ih
  | eatFault _ _ ih => exact ih
  | eatHinted _ _ _ ih => exact ih
  | closeAt _ mark k ih =>
      unfold Parser.closeAt
      split
      · exact ih
      · split
        · exact ih
        · exact ih
  | deeper _ ih => exact ih
  | tooDeep _ ih => exact ih
  | leave _ ih => exact ih
  | @rewind earlier later _ _ hkept _ ih =>
      have hsize : earlier.nodes.size ≤ later.nodes.size := by
        rw [← Array.length_toList, ← Array.length_toList]
        exact hkept.length_le
      show (later.intact && decide (earlier.nodes.size ≤ later.nodes.size)) = true
      rw [ih, decide_eq_true hsize, Bool.and_self]
  | replay _ _ ih => exact ih
  | remember _ _ _ _ _ ih => exact ih

/-! ## Steps made of others -/

theorem unexpected (h : Reached src s p) : Reached src s p.unexpected :=
  h.trimFaults.eatFault _

theorem eatReserved (h : Reached src s p) : Reached src s p.eatReserved :=
  h.trimFaults.eatHinted _ _

theorem eatIf (h : Reached src s p) (k : ScriptKind) : Reached src s (p.eatIf k).1 := by
  unfold Parser.eatIf
  split
  · exact h.eat
  · exact h

theorem skip (h : Reached src s p) (k : ScriptKind) : Reached src s (p.skip k) :=
  h.eatIf k

theorem expect (h : Reached src s p) (k : ScriptKind) : Reached src s (p.expect k).1 := by
  unfold Parser.expect
  split
  · exact h.eat
  split
  · exact h.eatReserved
  · exact h.expected k.title

theorem require (h : Reached src s p) (k : ScriptKind) : Reached src s (p.require k) :=
  h.expect k

/-- A comma is required except before what ends a list. -/
theorem separate (h : Reached src s p) (close : ScriptKind) :
    Reached src s (if p.isAt close then p else p.require .comma) := by
  split
  · exact h
  · exact h.require .comma

theorem eatAll (fuel : Nat) (h : Reached src s p) : Reached src s (p.eatAll fuel) := by
  induction fuel generalizing p with
  | zero => exact h
  | succ fuel ih =>
      unfold Parser.eatAll
      split
      · exact h
      · exact ih h.eat

theorem enter (h : Reached src s p) : Reached src s p.enter.1 := by
  unfold Parser.enter
  split
  · exact h.tooDeep.eatAll _
  · exact h.deeper

end Reached

end ComponentMarkup.Script
