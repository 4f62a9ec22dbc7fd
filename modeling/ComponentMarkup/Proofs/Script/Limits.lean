import ComponentMarkup.Proofs.Script.SideBySide
import ComponentMarkup.Proofs.Script.TokenTiling

/-!
# Limits of the script parser

Two limits keep parsing finite.  A level of nesting too many ends it: the place is recorded, and no later step
takes that back.  How many goals deep parsing may go is also limited, but by more than any text can use.

* `Parser.TooDeep`, `tooDeep_simulation` — nesting got too deep, which stays so;
* `Parser.remaining`, `Parser.remaining_eatAs` — how many tokens can be left, one less with each that is taken;
* `Goal.cost`, `Goal.cost_le_goalFuel` — how many goals deep a goal can lead, and that the grammar goes so deep.
-/

namespace ComponentMarkup.Script

open ComponentMarkup.Text ComponentMarkup.Tree

variable {p : Parser}

/-! ## Nesting that got too deep -/

/-- Nesting got too deep on the way to a parser. -/
def Parser.TooDeep (p : Parser) : Prop :=
  p.overflow.isSome = true

/-- A parser, twice, in which nesting got too deep. -/
def StaysTooDeep (p q : Parser) : Prop :=
  p = q ∧ p.TooDeep

namespace Parser.TooDeep

theorem eatAll (fuel : Nat) (h : p.TooDeep) : (p.eatAll fuel).TooDeep := by
  induction fuel generalizing p with
  | zero => exact h
  | succ fuel ih =>
      unfold Parser.eatAll
      split
      · exact h
      · exact ih h

theorem enter (h : p.TooDeep) : p.enter.1.TooDeep := by
  unfold Parser.enter
  split
  · refine TooDeep.eatAll _ ?_
    obtain ⟨place, hplace⟩ := Option.isSome_iff_exists.mp h
    unfold TooDeep
    rw [hplace]
    rfl
  · exact h

theorem expected (h : p.TooDeep) (thing : String) : (p.expected thing).TooDeep := by
  unfold Parser.expected
  dsimp only
  split
  · exact h
  · exact h

theorem closeAt (h : p.TooDeep) (mark : Nat) (k : ScriptKind) : (p.closeAt mark k).TooDeep := by
  unfold Parser.closeAt
  split
  · exact h
  · split
    · exact h
    · exact h

end Parser.TooDeep

theorem tooDeep_beyond : Beyond Parser.TooDeep :=
  ⟨fun _ h => h, fun h => h, fun _ h => h, fun _ _ h => h, fun thing h => h.expected thing, fun h => h,
    fun h => h, fun mark k h => h.closeAt mark k⟩

/-- **No step of the parser takes back that nesting got too deep.** -/
theorem tooDeep_simulation : Simulation StaysTooDeep where
  alike := by
    rintro p _ ⟨rfl, _⟩
    exact ⟨rfl, rfl, rfl, rfl, rfl, rfl, rfl, rfl, fun _ _ => rfl, rfl⟩
  check := by
    rintro p _ holds ⟨rfl, h⟩
    exact ⟨rfl, h⟩
  eat := by
    rintro p _ ⟨rfl, h⟩
    exact ⟨rfl, h⟩
  rename := by
    rintro p _ - ⟨rfl, h⟩
    exact ⟨rfl, h⟩
  branch := by
    rintro p _ mark k - ⟨rfl, h⟩
    exact ⟨rfl, h⟩
  expected := by
    rintro p _ thing ⟨rfl, h⟩
    exact ⟨rfl, h.expected thing⟩
  unexpected := by
    rintro p _ ⟨rfl, h⟩
    exact ⟨rfl, h⟩
  eatReserved := by
    rintro p _ ⟨rfl, h⟩
    exact ⟨rfl, h⟩
  closeAt := by
    rintro p _ mark k ⟨rfl, h⟩
    exact ⟨rfl, h.closeAt mark k⟩
  enter := by
    rintro p _ ⟨rfl, h⟩
    exact ⟨rfl, h.enter⟩
  leave := by
    rintro p _ ⟨rfl, h⟩
    exact ⟨rfl, h⟩
  rewind := by
    rintro p _ p' _ ⟨rfl, h⟩ ⟨rfl, _⟩
    exact ⟨rfl, h⟩
  replay := by
    rintro p _ g g' ⟨rfl, h⟩ hg hg'
    obtain rfl := Option.some.inj (hg.symm.trans hg')
    exact ⟨rfl, h⟩
  remember := by
    rintro p _ p' _ ⟨rfl, h⟩ ⟨rfl, _⟩
    exact ⟨rfl, h⟩

/-- A reader that keeps a parser too deep. -/
theorem Keeps.tooDeep {read : Reader} (hread : Keeps StaysTooDeep read) (goal : Goal) (h : p.TooDeep) :
    (read goal p).TooDeep :=
  (hread goal ⟨rfl, h⟩).2

/-- A level too many is recorded, and not entered. -/
theorem Parser.enter_tooDeep (h : maxDepth ≤ p.depth) : p.enter.1.TooDeep ∧ p.enter.2 = false := by
  unfold Parser.enter
  rw [if_pos h]
  refine ⟨TooDeep.eatAll _ ?_, rfl⟩
  unfold TooDeep Limited.first
  cases p.overflow <;> rfl

theorem Parser.enter_eq (h : p.depth < maxDepth) : p.enter = ({ p with depth := p.depth + 1 }, true) := by
  unfold Parser.enter
  rw [if_neg (Nat.not_le_of_gt h)]

/-! ## Tokens that are left -/

/-- A bound on the tokens that are left, which is none only at the end. -/
def Parser.remaining (p : Parser) : Nat :=
  if p.atEnd then 0 else p.lexer.rest.length + 1

theorem Parser.remaining_le (p : Parser) : p.remaining ≤ p.lexer.rest.length + 1 := by
  unfold Parser.remaining
  split
  · exact Nat.zero_le _
  · exact Nat.le_refl _

/-- Where a token is to be taken, some are left. -/
theorem Parser.remaining_pos {k : ScriptKind} (hk : k ≠ .endOfTokens) (h : p.isAt k = true) :
    0 < p.remaining := by
  unfold Parser.remaining Parser.atEnd
  rw [if_neg]
  · exact Nat.succ_pos _
  · intro hend
    unfold Parser.isAt at h hend
    rw [eq_of_beq h] at hend
    exact hk (Kind.script.inj (eq_of_beq hend))

/-- **A token that is taken is not left**, if there was one. -/
theorem Parser.remaining_eatAs {src : Source} {stop : Nat} (hreads : p.lexer.Reads src stop)
    (hstands : p.current.Stands src stop p.lexer) (node : Node) :
    (p.eatAs node).remaining ≤ p.remaining - 1 := by
  obtain ⟨more, hmore⟩ := readCurrent_spec (p.nodes.push node) hreads
  have hshorter : (p.eatAs node).lexer.rest.length ≤ p.lexer.rest.length - 1 := hmore.shorter
  have hnil : p.lexer.rest = [] → (p.eatAs node).remaining = 0 := by
    intro hrest
    unfold Parser.remaining
    exact if_pos (beq_iff_eq.mpr (hmore.at_end hrest))
  by_cases hend : p.atEnd
  · -- nothing follows the token that stands for the end
    have hplace : p.lexer.place = stop := by
      have hstart := hstands.at_end (eq_of_beq hend)
      have hle := hstands.fits.le
      have hstop := hstands.stop_eq
      have hin := hreads.le
      omega
    have hrest : p.lexer.rest = [] := by rw [hreads.rest, hplace, src.slice_self]
    rw [hnil hrest]
    exact Nat.zero_le _
  · rw [Parser.remaining.eq_def p, if_neg hend, Nat.add_sub_cancel]
    by_cases hrest : p.lexer.rest = []
    · rw [hnil hrest]
      exact Nat.zero_le _
    · have hpos := List.length_pos_iff.mpr hrest
      have hle := (p.eatAs node).remaining_le
      omega

/-! ## Goals within goals -/

/-- Statements and expressions lead to primary expressions, and these to objects, without taking a token. -/
def Goal.rank : Goal → Nat
  | .object => 0
  | .primary => 1
  | _ => 2

/-- How many goals deep a goal can lead at a depth of nesting, with a number of tokens left. -/
def Goal.cost (goal : Goal) (depth tokens : Nat) : Nat :=
  3 * (maxDepth - depth) + 3 * tokens + goal.rank + 1

theorem Goal.rank_le (goal : Goal) : goal.rank ≤ 2 := by
  unfold Goal.rank
  split <;> decide

theorem Goal.cost_mono {depth tokens tokens' : Nat} (goal : Goal) (h : tokens ≤ tokens') :
    goal.cost depth tokens ≤ goal.cost depth tokens' := by
  unfold Goal.cost
  omega

/-- One level of nesting pays for any goal inside. -/
theorem Goal.cost_enter {depth tokens : Nat} (goal : Goal) (h : depth < maxDepth) :
    goal.cost (depth + 1) tokens ≤ 3 * (maxDepth - depth) + 3 * tokens := by
  have hrank := goal.rank_le
  unfold Goal.cost
  omega

/-- One token pays for any goal behind it. -/
theorem Goal.cost_eat {depth tokens : Nat} (goal : Goal) :
    goal.cost depth tokens ≤ 3 * (maxDepth - depth) + 3 * (tokens + 1) := by
  have hrank := goal.rank_le
  unfold Goal.cost
  omega

/-- **The grammar goes as many goals deep as the tokens can lead.** -/
theorem Goal.cost_le_goalFuel (goal : Goal) (p : Parser) : goal.cost 0 p.remaining ≤ goalFuel p := by
  have hrank := goal.rank_le
  have htokens := p.remaining_le
  unfold Goal.cost goalFuel Parser.budget
  omega

end ComponentMarkup.Script
