import ComponentMarkup.Proofs.Script.RulesInStep

/-!
# Script parsers side by side

The rules of the script grammar see little of a parser and change it only by the steps of the parser.  So a
relation between parsers that these steps keep, and that relates only parsers that look alike to the rules, is
kept by the whole grammar: two parsers that start related take the same decisions and end related.

A property of single parsers is the case of a relation between a parser and itself.

* `Parser.Alike` — what the rules see of a parser is the same for both;
* `Simulation` — a relation of look-alikes that the steps of the parser keep;
* `readGoal_related` — the grammar keeps it, with any amount of fuel;
* `readScript_related`, `readSoleExpression_related`, `readAttributes_related`, `eatRest_related` — so does
  reading from an entry point up to the last token.
-/

namespace ComponentMarkup.Script

open ComponentMarkup.Text ComponentMarkup.Tree

/-! ## What the rules see -/

/-- Two parsers that the rules of the grammar cannot tell apart. -/
structure Parser.Alike (p q : Parser) : Prop where
  kind : p.current.kind = q.current.kind
  word : p.current.node.kind = q.current.node.kind
  text : p.current.node.text = q.current.node.text
  newline : p.newline = q.newline
  ahead : p.nextIs = q.nextIs
  mark : p.mark = q.mark
  budget : p.budget = q.budget
  depth : p.depth = q.depth
  branch : ∀ (mark : Nat) (k : ScriptKind),
    (p.nodes[mark]?).any (·.isScript k) = (q.nodes[mark]?).any (·.isScript k)
  known : p.knownArrow?.isSome = q.knownArrow?.isSome

/-- A relation between look-alikes that every step of the parser keeps. -/
structure Simulation (R : Parser → Parser → Prop) : Prop where
  alike : ∀ {p q}, R p q → p.Alike q
  check : ∀ {p q} (holds : Bool), R p q → R (p.check holds) (q.check holds)
  eat : ∀ {p q}, R p q → R p.eat q.eat
  rename : ∀ {p q}, p.isAtAny (.ident :: Parser.reserved) = true → R p q →
    R (p.eatAs (p.current.node.withKind (.script .ident)))
      (q.eatAs (q.current.node.withKind (.script .ident)))
  branch : ∀ {p q} (mark : Nat) {k : ScriptKind}, (k != .embed) = true → R p q →
    R (p.wrap mark k) (q.wrap mark k)
  expected : ∀ {p q} (thing : String), R p q → R (p.expected thing) (q.expected thing)
  unexpected : ∀ {p q}, R p q → R p.unexpected q.unexpected
  eatReserved : ∀ {p q}, R p q → R p.eatReserved q.eatReserved
  closeAt : ∀ {p q} (mark : Nat) (k : ScriptKind), R p q → R (p.closeAt mark k) (q.closeAt mark k)
  enter : ∀ {p q}, R p q → R p.enter.1 q.enter.1
  leave : ∀ {p q}, R p q → R p.leave q.leave
  rewind : ∀ {p q p' q'}, R p q → R p' q' → R (p.rewind p') (q.rewind q')
  replay : ∀ {p q} {g g' : ArrowGroup}, R p q → p.knownArrow? = some g → q.knownArrow? = some g' →
    R (p.replay g) (q.replay g')
  remember : ∀ {p q p' q'}, R p q → R p' q' →
    R (p.remember p'.current.node.start p'.mark) (q.remember q'.current.node.start q'.mark)

/-- A reader that keeps a relation, for any goal. -/
def Keeps (R : Parser → Parser → Prop) (read : Reader) : Prop :=
  ∀ (goal : Goal) {p q : Parser}, R p q → R (read goal p) (read goal q)

variable {R R' : Parser → Parser → Prop} {p q : Parser} {read : Reader} {f g : Parser → Parser}

namespace Parser.Alike

theorem sameAhead (h : p.Alike q) : p.SameAhead q :=
  ⟨h.kind, h.word, h.text, h.newline, h.ahead, h.budget⟩

theorem isAt (h : p.Alike q) (k : ScriptKind) : p.isAt k = q.isAt k :=
  h.sameAhead.isAt k

theorem isAtAny (h : p.Alike q) (ks : List ScriptKind) : p.isAtAny ks = q.isAtAny ks :=
  h.sameAhead.isAtAny ks

theorem goalFuel (h : p.Alike q) : goalFuel p = goalFuel q := by
  unfold ComponentMarkup.Script.goalFuel
  rw [h.budget]

theorem atEnd (h : p.Alike q) : p.atEnd = q.atEnd :=
  h.isAt .endOfTokens

end Parser.Alike

/-- The same choice between two ways to go on. -/
theorem ite_related {b c : Bool} {p' q' : Parser} (hbc : b = c) (hp : R p q) (hp' : R p' q') :
    R (if b then p else p') (if c then q else q') := by
  subst hbc
  split
  · exact hp
  · exact hp'

/-! ## Lockstep without losing a parser -/

/-- No parser is ever lost. -/
def NeverLost (_ : Parser) : Prop :=
  False

theorem InStep.related (h : InStep NeverLost R R' f g) (hpq : R p q) : R' (f p) (g q) :=
  (h.keeps hpq).elim False.elim fun h => h.elim False.elim fun h => h

theorem Keeps.inStep (hread : Keeps R read) : ReadersInStep NeverLost R read read :=
  ⟨fun _ {_} h => h.elim, fun _ {_} h => h.elim, fun goal {_ _} h _ => .of (hread goal h)⟩

namespace Simulation

variable (sim : Simulation R)

include sim

/-- Marks set by look-alikes are the same. -/
theorem lockstep : Lockstep NeverLost R Eq where
  beyond := ⟨fun _ h => h, fun h => h, fun _ h => h, fun _ _ h => h, fun _ h => h, fun h => h, fun h => h,
    fun _ _ h => h⟩
  ahead h := (sim.alike h).sameAhead
  mark h := (sim.alike h).mark
  isFunction := by
    rintro p q mark _ rfl h
    exact (sim.alike h).branch mark .funcExpr
  check := sim.check
  eat := sim.eat
  rename := sim.rename
  wrap := by
    rintro p q mark _ k hk rfl h
    exact sim.branch mark (Bool.and_eq_true_iff.mp hk).2 h
  expected := sim.expected
  unexpected := sim.unexpected
  eatReserved := sim.eatReserved
  closeAt := by
    rintro p q mark _ k rfl h
    exact sim.closeAt mark k h

theorem wrapsAll : WrapsAll R Eq := by
  rintro p q mark _ k hk rfl h
  exact sim.branch mark hk h

/-- Entering a level of nesting succeeds for both or for none. -/
theorem enterBoth (h : R p q) : Both R p.enter q.enter := by
  refine ⟨sim.enter h, ?_⟩
  unfold Parser.enter
  rw [(sim.alike h).depth]
  split <;> rfl

end Simulation

/-! ## Goals -/

section Goals

variable (sim : Simulation R) (hread : Keeps R read)

include sim hread

theorem readStatement_related (h : R p q) : R (readStatement read p) (readStatement read q) := by
  obtain ⟨hin, hentered⟩ := sim.enterBoth h
  have hstatement : R (readStatementHere read p.enter.1) (readStatementHere read q.enter.1) :=
    (readStatementHere_abreast sim.lockstep hread.inStep hin).elim False.elim
      fun h => h.elim False.elim fun h => h
  exact ite_related hentered (sim.leave hstatement) hin

theorem readOperation_related (power : Nat) (h : R p q) :
    R (readOperation read power p) (readOperation read power q) := by
  obtain ⟨hin, hentered⟩ := sim.enterBoth h
  have hoperands := (readOperands_inStep sim.lockstep hread.inStep sim.wrapsAll power).related hin
  exact ite_related hentered (sim.leave hoperands) hin

/-- A group is known to both parsers, or both read it, going back to where they were if an arrow follows. -/
theorem readGroup_related (h : R p q) : R (readGroup read p) (readGroup read q) := by
  have lock := sim.lockstep
  have hknown := (sim.alike h).known
  cases hp : p.knownArrow? with
  | some g =>
      cases hq : q.knownArrow? with
      | none =>
          rw [hp, hq] at hknown
          exact absurd hknown Bool.noConfusion
      | some g' =>
          simp only [readGroup, hp, hq]
          exact sim.replay h hp hq
  | none =>
      cases hq : q.knownArrow? with
      | some g' =>
          rw [hp, hq] at hknown
          exact absurd hknown Bool.noConfusion
      | none =>
          have hlater := (readElements_inStep lock hread.inStep lock.opening).related h
          have hparams := (readParameters_inStep lock hread.inStep).related (sim.rewind hlater h)
          have hbody := (readArrowBody_inStep lock hread.inStep).related
            ((lock.require .arrow).related hparams)
          have harrow := sim.remember (lock.wrap (k := .arrowFunc) rfl (lock.mark h) hbody) h
          simp only [readGroup, hp, hq]
          exact ite_related (congrArg Bool.not (lock.ahead hlater).isAtArrow)
            (lock.wrap rfl (lock.mark h) hlater) harrow

theorem readPrimary_related (h : R p q) : R (readPrimary read p) (readPrimary read q) := by
  have lock := sim.lockstep
  have frame := lock.framing lock.opening
  unfold readPrimary
  rw [lock.kind? h]
  split
  · exact (readName_inStep lock hread.inStep frame).related h
  · exact (readAsync_inStep lock hread.inStep frame).related h
  · exact readGroup_related sim hread h
  · exact (readArray_inStep lock hread.inStep frame).related h
  · exact hread _ h
  · exact (readFunctionExpression_inStep lock hread.inStep frame).related h
  · exact (readNew_inStep lock hread.inStep (readCallee_inStep lock hread.inStep sim.wrapsAll) frame).related h
  · exact sim.eat h
  · exact sim.eat h
  · exact sim.eat h
  · exact sim.eat h
  · exact sim.eat h
  · exact sim.eat h
  · exact sim.eat h
  · exact sim.expected _ h

end Goals

/-! ## Entry points -/

section Entries

variable (sim : Simulation R)

include sim

/-- **The grammar keeps every simulation**, whatever the goal and the fuel. -/
theorem readGoal_related (fuel : Nat) : Keeps R (readGoal fuel) := by
  induction fuel with
  | zero => exact fun _ _ _ h => h
  | succ fuel ih =>
      intro goal p q h
      cases goal with
      | statement => exact readStatement_related sim ih h
      | expression power => exact readOperation_related sim ih power h
      | primary => exact readPrimary_related sim ih h
      | object => exact (readObject_inStep sim.lockstep ih.inStep
          (sim.lockstep.framing sim.lockstep.opening)).related h

theorem readScript_related (h : R p q) : R (readScript p) (readScript q) := by
  unfold readScript
  rw [(sim.alike h).goalFuel]
  exact (sim.lockstep.loopUntil _
    (readStatementOrFault_inStep sim.lockstep (readGoal_related sim _).inStep)).related h

theorem readSoleExpression_related (h : R p q) :
    R (readSoleExpression p) (readSoleExpression q) := by
  have hfirst := ite_related ((sim.alike h).isAtAny expressionStart)
    (readGoal_related sim (goalFuel q) (.expression assignPower) h)
    (ite_related (sim.alike h).atEnd h (sim.expected "expression" h))
  unfold readSoleExpression
  rw [(sim.alike h).goalFuel]
  exact (sim.lockstep.loopUntil _ sim.lockstep.notExpected).related hfirst

theorem readAttributes_related (h : R p q) : R (readAttributes p) (readAttributes q) := by
  unfold readAttributes
  rw [(sim.alike h).goalFuel]
  exact (sim.lockstep.loopUntil _ (readListedProperty_inStep sim.lockstep
    (readGoal_related sim _).inStep .endOfTokens)).related h

/-- Taking what is left of the tokens keeps a simulation. -/
theorem eatRest_related (h : R p q) : R (p.eatAll p.budget) (q.eatAll q.budget) :=
  sim.lockstep.eatRest.related h

end Entries

end ComponentMarkup.Script
