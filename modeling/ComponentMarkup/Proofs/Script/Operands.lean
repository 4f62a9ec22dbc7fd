import ComponentMarkup.Proofs.Script.ReadSoFar

/-!
# Operands and what may follow them

An operand that was read so far binds at least as tightly as was asked for, and what follows it binds no tighter
than its own operator lets it.  So whatever operator comes next may have it as its left operand.

* `readOperator_cases`, `readSuffix_eq` — where an operator or another operation is read, and where none is;
* `Parser.Closed` — what follows binds less tightly than a number;
* `Settled` — an operand that was read so far; `Settled.left`, `Settled.right`, `Settled.operand` — what it may be
  an operand of.
-/

namespace ComponentMarkup.Script

open ComponentMarkup.Text ComponentMarkup.Tree

variable {k : ScriptKind} {e : Node} {p q : Parser} {power : Nat}

/-! ## What follows an operand -/

/-- Whether an operation on the expression before it starts here. -/
def Parser.isAtSuffix (p : Parser) : Bool :=
  p.isAt .dot || p.isAt .questionDot ||
    !p.newline && (p.isAt .leftBracket || p.isAt .leftParen || p.isAt .template || p.isAt .step)

/-- How tightly an operator behind an expression binds. -/
def infixPower? (k : ScriptKind) (text : String) : Option Nat :=
  match k with
  | .assign => some assignPower
  | .question => some conditionalPower
  | _ => (binaryPower? k text).map Prod.fst

/-- How tightly the operator here binds, if there is one. -/
def Parser.operatorPower? (p : Parser) : Option Nat :=
  p.kind?.bind (infixPower? · p.current.node.text)

/-- **What follows binds less tightly than `power`.** -/
structure Parser.Closed (power : Nat) (p : Parser) : Prop where
  suffix : p.isAtSuffix = false
  operator : ∀ own, p.operatorPower? = some own → own < power

theorem Parser.Closed.congr {power : Nat} (h : p.Closed power) (hcurrent : q.current = p.current) :
    q.Closed power := by
  refine ⟨?_, ?_⟩
  · have hsuffix := h.suffix
    unfold Parser.isAtSuffix Parser.newline Parser.isAt at *
    rwa [hcurrent]
  · have hoperator := h.operator
    unfold Parser.operatorPower? Parser.kind? at *
    rwa [hcurrent]

/-- An operation on the expression before it is read where one starts, and only there. -/
theorem readSuffix_eq (read : Reader) (mark : Nat) (p : Parser) :
    ∃ q, readSuffix read mark true p = if p.isAtSuffix then (q, true) else (p, false) := by
  unfold readSuffix Parser.isAtSuffix
  cases p.isAt .dot with
  | true => exact ⟨_, rfl⟩
  | false =>
  cases p.isAt .questionDot with
  | true => exact ⟨_, rfl⟩
  | false =>
  cases p.newline with
  | true => exact ⟨p, rfl⟩
  | false =>
  cases p.isAt .leftBracket with
  | true => exact ⟨_, rfl⟩
  | false =>
  cases p.isAt .leftParen with
  | true => exact ⟨_, rfl⟩
  | false =>
  cases p.isAt .template with
  | true => exact ⟨_, rfl⟩
  | false =>
  cases p.isAt .step with
  | true => exact ⟨_, rfl⟩
  | false => exact ⟨p, rfl⟩

/-- The operator that groups to the right binds most tightly of all binary ones. -/
def topPower : Nat := 14

/-- How tightly the right operand of a binary operation binds at least. -/
def rightPower (power : Nat) : Nat :=
  min (power + 1) topPower

theorem binaryPower?_bounds {text : String} {power : Nat} {toRight : Bool}
    (h : binaryPower? k text = some (power, toRight)) :
    conditionalPower < power ∧ power ≤ topPower ∧ (toRight = true ↔ k = .binOp ∧ text = "**") ∧
      (toRight = true ↔ power = topPower) := by
  unfold binaryPower? at h
  split at h
  iterate 5
    · obtain ⟨rfl, rfl⟩ := Prod.mk.inj (Option.some.inj h)
      exact ⟨by decide, by decide, by simp, by decide⟩
  · split at h <;> first
      | exact absurd h (Option.some_ne_none _).symm
      | (obtain ⟨rfl, rfl⟩ := Prod.mk.inj (Option.some.inj h)
         exact ⟨by decide, by decide, by simp, by decide⟩)
  · exact absurd h (Option.some_ne_none _).symm

theorem rightPower_eq {text : String} {own : Nat} {toRight : Bool} (h : binaryPower? k text = some (own, toRight)) :
    (if toRight then own else own + 1) = rightPower own := by
  obtain ⟨_, hle, _, htop⟩ := binaryPower?_bounds h
  unfold rightPower
  cases toRight with
  | true =>
      obtain rfl := htop.mp rfl
      rfl
  | false =>
      have hne : own ≠ topPower := fun heq => Bool.noConfusion (htop.mpr heq)
      rw [if_neg Bool.false_ne_true]
      omega

/-- What the rule for operators does: nothing, where no operator binds tightly enough, or what the operator asks
for. -/
theorem readOperator_cases (read : Reader) (mark power : Nat) (p : Parser) :
    (readOperator read mark power p = (p, false) ∧ ∀ own, p.operatorPower? = some own → own < power) ∨
    (p.operatorPower? = some assignPower ∧ power ≤ assignPower ∧
      readOperator read mark power p = ((readExpression read p.eat).wrap mark .assignment, true)) ∨
    (p.operatorPower? = some conditionalPower ∧ power ≤ conditionalPower ∧
      readOperator read mark power p =
        ((readExpression read ((readExpression read p.eat).require .colon)).wrap mark .ternary, true)) ∨
    ∃ kind own toRight, p.kind? = some kind ∧ binaryPower? kind p.current.node.text = some (own, toRight) ∧
      p.operatorPower? = some own ∧ power ≤ own ∧
      readOperator read mark power p = ((read (.expression (rightPower own)) p.eat).wrap mark .binary, true) := by
  have hless {own : Nat} {power' : Option Nat} (hpower : power' = some own) (hlt : own < power) :
      ∀ own, power' = some own → own < power := by
    rintro own' heq
    obtain rfl := Option.some.inj (hpower.symm.trans heq)
    exact hlt
  unfold readOperator Parser.operatorPower?
  generalize p.kind? = here
  split
  · by_cases hlt : assignPower < power
    · exact .inl ⟨if_pos hlt, hless rfl hlt⟩
    · exact .inr (.inl ⟨rfl, Nat.le_of_not_lt hlt, if_neg hlt⟩)
  · by_cases hlt : conditionalPower < power
    · exact .inl ⟨if_pos hlt, hless rfl hlt⟩
    · exact .inr (.inr (.inl ⟨rfl, Nat.le_of_not_lt hlt, if_neg hlt⟩))
  · rename_i kind hassign hquestion
    have hinfix : infixPower? kind p.current.node.text =
        (binaryPower? kind p.current.node.text).map Prod.fst := by
      unfold infixPower?
      split
      · exact absurd rfl hassign
      · exact absurd rfl hquestion
      · rfl
    rw [Option.bind_some, hinfix]
    cases hbinary : binaryPower? kind p.current.node.text with
    | none => exact .inl ⟨rfl, fun own hown => absurd hown (Option.some_ne_none own).symm⟩
    | some operator =>
        obtain ⟨own, toRight⟩ := operator
        by_cases hlt : own < power
        · exact .inl ⟨if_pos hlt, hless rfl hlt⟩
        · refine .inr (.inr (.inr ⟨kind, own, toRight, rfl, hbinary, rfl, Nat.le_of_not_lt hlt, ?_⟩))
          rw [← rightPower_eq hbinary]
          exact if_neg hlt
  · exact .inl ⟨rfl, fun own hown => absurd hown (Option.some_ne_none own).symm⟩

theorem Parser.atEnd_of_operatorPower? {own : Nat} (h : p.operatorPower? = some own) : p.atEnd = false := by
  obtain ⟨k, hk, hpower⟩ := Option.bind_eq_some_iff.mp h
  refine Parser.atEnd_of_isAt ?_ (Parser.isAt_of_kind? hk)
  rintro rfl
  exact absurd hpower (Option.some_ne_none own).symm

/-! ## Operands -/

/-- **An operand that was read so far**, up to a parser: an operation that binds at least as tightly as `power`,
with what may not follow it, or something that may stand anywhere. -/
inductive Settled (power : Nat) (p : Parser) (e : Node) : Prop where
  /-- Anything may follow. -/
  | atomic (atomic : Atomic e)
  /-- An operator before its operand took what binds as tightly. -/
  | unary (kind : e.kind = .script .unary) (closed : p.Closed unaryPower)
  /-- The right operand of a binary operation took what binds more tightly. -/
  | binary (own : Nat) (kind : e.kind = .script .binary) (own_eq : binaryPowerOf? e = some own)
      (power_le : power ≤ own) (le_top : own ≤ topPower) (closed : p.Closed (rightPower own))
  /-- The last operand of a conditional or an assignment took everything. -/
  | loose (kind : isOneOf looseKinds e = true) (power_le : power ≤ conditionalPower)
      (closed : p.Closed assignPower)

theorem isOneOf_of_kind (h : e.kind = .script k) (ks : List ScriptKind) : isOneOf ks e = ks.contains k := by
  unfold isOneOf
  rw [h]
  rfl

theorem isOneOf_subset {ks ls : List ScriptKind} (h : isOneOf ls e = false) (hsub : ks ⊆ ls) :
    isOneOf ks e = false := by
  unfold isOneOf at h ⊢
  cases hk : e.kind.script? with
  | none => rfl
  | some k =>
      rw [hk, Option.any_some, List.contains_eq_mem, decide_eq_false_iff_not] at h
      rw [Option.any_some, List.contains_eq_mem, decide_eq_false_iff_not]
      exact fun hmem => h (hsub hmem)

namespace Settled

theorem congr (h : Settled power p e) (hcurrent : q.current = p.current) : Settled power q e := by
  cases h with
  | atomic atomic => exact .atomic atomic
  | unary kind closed => exact .unary kind (closed.congr hcurrent)
  | binary own kind own_eq power_le le_top closed =>
      exact .binary own kind own_eq power_le le_top (closed.congr hcurrent)
  | loose kind power_le closed => exact .loose kind power_le (closed.congr hcurrent)

/-- What an operation that starts here applies to may stand anywhere. -/
theorem atomic_of_suffix (h : Settled power p e) (hsuffix : p.isAtSuffix = true) : Atomic e := by
  have hopen {power : Nat} (closed : p.Closed power) : False :=
    Bool.false_ne_true (closed.suffix.symm.trans hsuffix)
  cases h with
  | atomic atomic => exact atomic
  | unary _ closed => exact (hopen closed).elim
  | binary _ _ _ _ _ closed => exact (hopen closed).elim
  | loose _ _ closed => exact (hopen closed).elim

/-- What is read behind an operator before its operand is no binary operation. -/
theorem operand (h : Settled unaryPower p e) : isOneOf (.binary :: looseKinds) e = false := by
  cases h with
  | atomic atomic => exact isOneOf_subset atomic (List.subset_cons_self _ _)
  | unary kind _ => exact isOneOf_of_kind kind _
  | binary own _ _ power_le le_top _ => exact absurd (power_le.trans le_top) (by decide)
  | loose _ power_le _ => exact absurd power_le (by decide)

/-- What is read behind a binary operator may be its right operand. -/
theorem right {own : Nat} (h : Settled (rightPower own) p e) (hlow : conditionalPower < own)
    (htop : own ≤ topPower) : BindsAt (rightPower own) e ∧ isOneOf looseKinds e = false := by
  have hbinary {k : ScriptKind} (hkind : e.kind = .script k) (hk : k ≠ .binary) :
      BindsAt (rightPower own) e := by
    intro his
    unfold Node.isScript at his
    rw [hkind, beq_iff_eq] at his
    exact absurd (Kind.script.inj his) hk
  cases h with
  | atomic atomic =>
      refine ⟨fun his => ?_, isOneOf_subset atomic (by decide)⟩
      have hin := isOneOf_of_kind (beq_iff_eq.mp his) (.unary :: .binary :: looseKinds)
      exact absurd (atomic.symm.trans hin) (by decide)
  | unary kind _ => exact ⟨hbinary kind (by decide), isOneOf_of_kind kind _⟩
  | binary own' kind own_eq power_le _ _ => exact ⟨fun _ => ⟨own', own_eq, power_le⟩, isOneOf_of_kind kind _⟩
  | loose _ power_le _ =>
      unfold rightPower topPower conditionalPower at *
      omega

/-- What was read before a binary operator may be its left operand. -/
theorem left {own : Nat} (h : Settled power p e) (hown : p.operatorPower? = some own)
    (hlow : conditionalPower < own) :
    BindsAt (if own = topPower then own + 1 else own) e ∧ isOneOf looseKinds e = false := by
  have hbinary {k : ScriptKind} {power : Nat} (hkind : e.kind = .script k) (hk : k ≠ .binary) :
      BindsAt power e := by
    intro his
    unfold Node.isScript at his
    rw [hkind, beq_iff_eq] at his
    exact absurd (Kind.script.inj his) hk
  cases h with
  | atomic atomic =>
      refine ⟨fun his => ?_, isOneOf_subset atomic (by decide)⟩
      have hin := isOneOf_of_kind (beq_iff_eq.mp his) (.unary :: .binary :: looseKinds)
      exact absurd (atomic.symm.trans hin) (by decide)
  | unary kind _ => exact ⟨hbinary kind (by decide), isOneOf_of_kind kind _⟩
  | binary own' kind own_eq _ _ closed =>
      have hlt := closed.operator own hown
      refine ⟨fun _ => ⟨own', own_eq, ?_⟩, isOneOf_of_kind kind _⟩
      unfold rightPower at hlt
      split <;> omega
  | loose _ _ closed =>
      have hlt := closed.operator own hown
      unfold conditionalPower assignPower at *
      omega

end Settled

end ComponentMarkup.Script
