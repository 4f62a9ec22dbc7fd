import ComponentMarkup.Proofs.Script.Operands
import ComponentMarkup.Proofs.Script.ArrowMemory

/-!
# Expressions nest as their operators bind

The nodes that reading an expression adds to a parser are one operand.  It binds at least as tightly as was asked
for, and what follows it binds less tightly.  This is kept while operators are added to it.

* `Goal.Kept` — what reading a goal does; `ReadsInOrder` — a reader that does so;
* `readContinuation_settled` — the next operator keeps the operand settled;
* `readGoal_kept` — every goal is read so, by induction on how many goals deep it leads;
* `readNamed_wellBound` — in a script without faults, all operations have the operands they may have.
-/

namespace ComponentMarkup.Script

open ComponentMarkup.Text ComponentMarkup.Tree

variable {whole clean : Prop} {src : Source} {s : Span} {A B ns : List Node} {d n power mark : Nat} {p q : Parser}
  {k : ScriptKind} {shape shape' : List Node → Prop} {e : Node} {read : Reader}

/-! ## Reading goals -/

/-- What reading a goal does, some levels deep and with so many tokens left: it keeps everything in order, and an
expression is one operand. -/
def Goal.Kept (src : Source) (s : Span) (d n : Nat) (goal : Goal) (f : Parser → Parser) : Prop :=
  match goal with
  | .statement => ∀ ⦃clean whole : Prop⦄ ⦃A : List Node⦄ ⦃p : Parser⦄,
      Held (fun _ => clean) whole src s A d n p → (f p).TooDeep ∨ Held (fun _ => clean) whole src s A d n (f p)
  | .expression power => ∀ ⦃whole : Prop⦄ ⦃A : List Node⦄ ⦃p : Parser⦄, HeldAny whole src s A d n p →
      (f p).TooDeep ∨ HeldFlawed whole src s A d n (f p) ∨
        Held (Alone (Settled power (f p))) False src s p.nodes.toList d n (f p) ∧ (f p).Closed power
  | .primary => ∀ ⦃whole : Prop⦄ ⦃A : List Node⦄ ⦃p : Parser⦄, HeldAny whole src s A d n p →
      (f p).TooDeep ∨ HeldFlawed whole src s A d n (f p) ∨
        Held (Alone Atomic) False src s p.nodes.toList d n (f p)
  | .object => ∀ ⦃whole : Prop⦄ ⦃A : List Node⦄ ⦃p : Parser⦄, HeldAny whole src s A d n p →
      p.isAt .leftBrace = true → (f p).TooDeep ∨ HeldFlawed whole src s A d n (f p) ∨
        Held (Alone Atomic) False src s p.nodes.toList d n (f p)

/-- A reader that does so with as many tokens left or fewer. -/
structure ReadsInOrder (src : Source) (s : Span) (d n : Nat) (read : Reader) : Prop where
  tooDeep : ∀ (goal : Goal) {p : Parser}, p.TooDeep → (read goal p).TooDeep
  kept : ∀ {n' : Nat} (goal : Goal), n' ≤ n → goal.Kept src s d n' (read goal)

namespace ReadsInOrder

theorem fewer {n' : Nat} (h : ReadsInOrder src s d n read) (hle : n' ≤ n) : ReadsInOrder src s d n' read :=
  ⟨h.tooDeep, fun goal hle' => h.kept goal (hle'.trans hle)⟩

/-- What is read is in order. -/
theorem keeps (h : ReadsInOrder src s d n read) (goal : Goal) (hp : Held (fun _ => clean) whole src s A d n p)
    (hobject : goal = .object → p.isAt .leftBrace = true) :
    (read goal p).TooDeep ∨ Held (fun _ => clean) whole src s A d n (read goal p) := by
  have hkept := h.kept goal (Nat.le_refl n)
  have hresume {shape : List Node → Prop} {q : Parser} (hq : Held shape False src s p.nodes.toList d n q) :
      Held (fun _ => clean) whole src s A d n q :=
    (hp.resume hq).imp fun ⟨_, _, _, hclean, _⟩ => hclean
  have hone {power : Node → Prop} {q : Parser} (hq : q.TooDeep ∨ HeldFlawed whole src s A d n q ∨
      Held (Alone power) False src s p.nodes.toList d n q) :
      q.TooDeep ∨ Held (fun _ => clean) whole src s A d n q :=
    hq.imp_right fun hq => hq.elim (fun hq => hq.imp False.elim) hresume
  cases goal with
  | statement => exact hkept hp
  | expression power => exact hone ((hkept hp.any).imp_right fun hq => hq.imp_right And.left)
  | primary => exact hone (hkept hp.any)
  | object => exact hone (hkept hp.any (hobject rfl))

theorem inStep (h : ReadsInOrder src s d n read) (clean whole : Prop) (A : List Node) :
    ReadersInStep Parser.TooDeep (Same (Held (fun _ => clean) whole src s A d n)) read read := by
  refine ⟨fun goal {_} => h.tooDeep goal, fun goal {_} => h.tooDeep goal, ?_⟩
  rintro goal p _ ⟨rfl, hp⟩ hobject
  exact (h.keeps goal hp hobject).imp_right fun hp => .inr ⟨rfl, hp⟩

/-- An expression behind some nodes. -/
theorem operand (h : ReadsInOrder src s d n read) (power : Nat) (hp : Held shape whole src s A d n p) :
    (read (.expression power) p).TooDeep ∨ HeldFlawed whole src s A d n (read (.expression power) p) ∨
      Held (Then shape (Alone (Settled power (read (.expression power) p)))) whole src s A d n
        (read (.expression power) p) ∧ (read (.expression power) p).Closed power := by
  have hkept := h.kept (.expression power) (Nat.le_refl n) hp.any
  exact hkept.imp_right fun hq => hq.imp_right fun ⟨hq, hclosed⟩ => ⟨hp.resume hq, hclosed⟩

end ReadsInOrder

/-! ### What starts with a token of its own -/

/-- A parser at a token, with some nodes behind it and nothing in front of them. -/
def Parser.StandsAt (src : Source) (s : Span) (A : List Node) (d n : Nat) (p : Parser) : Prop :=
  p.Standing src s d n ∧ p.nodes.toList = A

/-- Taking a token puts it in front of everything before it. -/
theorem standsAt_opening (src : Source) (s : Span) (A : List Node) (d n : Nat) :
    Opening (Here (Same (Parser.StandsAt src s A d (n + 1)))) (Same (HeldAny False src s A d n))
      (SameMark A.length) := by
  have heat {p : Parser} (h : p.StandsAt src s A d (n + 1)) (hend : p.atEnd = false) :
      HeldAny False src s A d n p.eat := by
    obtain ⟨hstanding, rfl⟩ := h
    exact (hstanding.eat hend).any
  refine ⟨?_, ?_, ?_⟩
  · rintro p _ ⟨⟨rfl, _, rfl⟩, _⟩
    exact ⟨rfl, Nat.le_refl _⟩
  · rintro p _ ⟨⟨rfl, h⟩, hend⟩
    exact ⟨rfl, heat h hend⟩
  · rintro p _ k ⟨⟨rfl, hstanding, hnodes⟩, hend⟩
    exact ⟨rfl, heat ⟨hstanding.onlyNodes (p.check_onlyNodes _), hnodes⟩ hend⟩

theorem Held.standsAt (h : Held shape whole src s A d n p) : p.StandsAt src s p.nodes.toList d n :=
  ⟨h.standing, rfl⟩

/-- The tokens that are primary expressions or start one. -/
def primaryTokens : List ScriptKind :=
  [.ident, .asyncWord, .leftParen, .leftBracket, .leftBrace, .functionWord, .newWord, .number, .str, .template,
    .boolean, .nullWord, .thisWord, .embed]

/-- A parser at a token that starts a primary expression. -/
def Parser.AtPrimary (src : Source) (s : Span) (A : List Node) (d n : Nat) (p : Parser) : Prop :=
  p.StandsAt src s A d n ∧ ∃ k ∈ primaryTokens, p.kind? = some k

/-- A parser at the parenthesis that opens a group. -/
def Parser.OpensGroup (src : Source) (s : Span) (A : List Node) (d n : Nat) (p : Parser) : Prop :=
  p.StandsAt src s A d n ∧ p.isAt .leftParen = true

theorem atEnd_of_kind? (hk : k ≠ .endOfTokens) (h : p.kind? = some k) : p.atEnd = false :=
  Parser.atEnd_of_isAt hk (Parser.isAt_of_kind? h)

theorem Parser.AtPrimary.here (h : p.AtPrimary src s A d n) : p.atEnd = false := by
  obtain ⟨_, k, hk, hkind⟩ := h
  refine atEnd_of_kind? ?_ hkind
  rintro rfl
  exact absurd hk (by decide)

/-- **Primary expressions may stand anywhere.** -/
theorem primary_framing (src : Source) (s : Span) (A : List Node) (d n : Nat) :
    Framing (Same (Parser.AtPrimary src s A d (n + 1))) (Same (HeldAny False src s A d n))
      (Same (Held (Alone Atomic) False src s A d n)) (SameMark A.length) := by
  have htokens : ∀ k ∈ primaryTokens, (Kind.script k).isTrivia = false ∧
      (.unary :: .binary :: looseKinds).contains k = false := by decide
  have hbranches : ∀ k ∈ primaryKinds, (Kind.script k).isTrivia = false ∧ operationKinds.contains k = false ∧
      (.unary :: .binary :: looseKinds).contains k = false := by decide
  refine ⟨(standsAt_opening src s A d n).weaken ?_, ?_, ?_⟩
  · rintro p _ ⟨rfl, h⟩
    exact ⟨⟨rfl, h.1⟩, h.here⟩
  · rintro p _ ⟨rfl, h⟩
    refine ⟨rfl, ?_⟩
    have hend := h.here
    obtain ⟨⟨hstanding, rfl⟩, k, hk, hkind⟩ := h
    refine (hstanding.eat hend).imp ?_
    rintro ns rfl
    have hnode : p.current.node.kind = .script k := by
      rw [← hstanding.placed.stands.kind_eq]
      exact eq_of_beq (Parser.isAt_of_kind? hkind)
    obtain ⟨htrivia, hatomic⟩ := htokens k hk
    exact ⟨_, significant_single (by rw [hnode, htrivia]), (isOneOf_of_kind hnode _).trans hatomic⟩
  · rintro p _ p' _ k hk ⟨rfl, ⟨_, rfl⟩, _⟩ ⟨rfl, h'⟩
    refine ⟨rfl, ?_⟩
    obtain ⟨htrivia, hplain, hatomic⟩ := hbranches k hk
    refine (h'.enclose htrivia fun _ => bound_other hplain).imp ?_
    rintro ns ⟨e, rfl, hkind, _⟩
    exact ⟨e, rfl, (isOneOf_of_kind hkind _).trans hatomic⟩

/-! ### Operations -/

/-- An operand, unless there is a fault. -/
theorem Held.alone_cases {P : Node → Prop} (h : Held (Alone P) whole src s A d n p) :
    HeldFlawed whole src s A d n p ∨ ∃ e, P e ∧ Held (fun ns => ns = [e]) whole src s A d n p := by
  obtain ⟨front, trivia, hover, hflawed | htidy⟩ := h.nodes
  · exact .inl ⟨h.standing, front, trivia, hover, .inl hflawed⟩
  · obtain ⟨e, he, hP⟩ := htidy.shape
    exact .inr ⟨e, hP, h.standing, front, trivia, hover, .inr ⟨htidy.nodes, htidy.spaces, he⟩⟩

/-- Where no operation on the expression before starts, an operator may. -/
theorem readContinuation_operator (read : Reader) (mark power : Nat) (h : p.isAtSuffix = false) :
    readContinuation read mark power p = readOperator read mark power p := by
  obtain ⟨q, hq⟩ := readSuffix_eq read mark p
  rw [h, if_neg Bool.false_ne_true] at hq
  unfold readContinuation
  simp only [hq, Bool.false_eq_true, if_false]

/-- Nothing follows at the end. -/
theorem Parser.closed_atEnd (h : p.atEnd = true) : p.Closed power := by
  have hkind : p.current.kind = .script .endOfTokens := eq_of_beq h
  refine ⟨?_, fun own hown => ?_⟩
  · unfold Parser.isAtSuffix Parser.isAt
    rw [hkind]
    cases p.newline <;> rfl
  · exact absurd (Parser.atEnd_of_operatorPower? hown) (by rw [h]; exact Bool.noConfusion)

/-- Where what follows binds less tightly, the expression ends. -/
theorem readContinuation_closed (read : Reader) (mark : Nat) (h : p.Closed power) :
    readContinuation read mark power p = (p, false) := by
  rw [readContinuation_operator read mark power h.suffix]
  rcases readOperator_cases read mark power p with ⟨hstop, _⟩ | ⟨hown, hpower, _⟩ | ⟨hown, hpower, _⟩ |
    ⟨_, own, _, _, _, hown, hpower, _⟩
  · exact hstop
  · exact absurd (h.operator _ hown) (Nat.not_lt.mpr hpower)
  · exact absurd (h.operator _ hown) (Nat.not_lt.mpr hpower)
  · exact absurd (h.operator _ hown) (Nat.not_lt.mpr hpower)

/-- Without tokens left, a parser is at the end. -/
theorem Parser.Standing.atEnd (h : p.Standing src s d 0) : p.atEnd = true := by
  have hleft := h.remaining
  unfold Parser.remaining at hleft
  split at hleft
  · assumption
  · exact absurd hleft (Nat.not_succ_le_zero _)

section Operations

variable (hread : ReadsInOrder src s d n read)

include hread

/-- What an operation on an operand that may stand anywhere makes may stand anywhere again. -/
theorem readSuffix_kept (calls : Bool) (h : Held (Alone Atomic) False src s B d (n + 1) p) :
    (readSuffix read B.length calls p).1.TooDeep ∨
      (Held (Alone Atomic) False src s B d n (readSuffix read B.length calls p).1 ∧
        (readSuffix read B.length calls p).2 = true) ∨
      readSuffix read B.length calls p = (p, false) := by
  have hkinds : ∀ k ∈ suffixKinds, (Kind.script k).isTrivia = false ∧
      (.unary :: .binary :: looseKinds).contains k = false := by decide
  have hbound : ∀ k ∈ suffixKinds, ∀ {ns}, Then (Alone Atomic) (fun _ => True) ns → Bound k ns := by
    rintro k hk ns ⟨_, rest, rfl, ⟨e, rfl, hatomic⟩, _⟩
    simp only [suffixKinds, List.mem_cons, List.not_mem_nil, or_false] at hk
    rcases hk with rfl | rfl | rfl | rfl <;> exact ⟨e, rest, rfl, hatomic⟩
  have hwrap : ∀ k ∈ suffixKinds, InStep Parser.TooDeep (Same (HeldAny False src s p.nodes.toList d n))
      (Same (Held (Alone Atomic) False src s B d n)) (·.wrap B.length k) (·.wrap B.length k) := by
    refine fun k hk => .same (fun h => h) fun {q} hq => .inr ?_
    obtain ⟨htrivia, hatomic⟩ := hkinds k hk
    refine ((h.resume hq).enclose htrivia (hbound k hk)).imp ?_
    rintro ns ⟨e, rfl, hkind, _⟩
    exact ⟨e, rfl, (isOneOf_of_kind hkind _).trans hatomic⟩
  have hsuffix := readSuffix_inStep (held_lockstep True False src s p.nodes.toList d n) (hread.inStep True False _)
    hwrap (standsAt_opening src s p.nodes.toList d n) (by
      rintro q _ ⟨rfl, _⟩
      exact ⟨rfl, rfl, rfl, rfl, rfl, rfl⟩) calls
  rcases hsuffix.keeps ⟨rfl, h.standsAt⟩ with hlost | hlost | ⟨⟨_, hnext⟩, hmore, _⟩ | ⟨hstop, _⟩
  · exact .inl hlost
  · exact .inl hlost
  · exact .inr (.inl ⟨hnext, hmore⟩)
  · exact .inr (.inr hstop)

/-- An operator takes an expression as its right operand. -/
theorem rightOperand_kept (right : Nat) (h : Held (fun ns => ns = [e]) False src s B d (n + 1) p) :
    (read (.expression right) p.eat).TooDeep ∨ HeldFlawed False src s B d n (read (.expression right) p.eat) ∨
      Held (fun ns => ∃ f, ns = [e] ++ significant [p.current.node] ++ [f] ∧
        Settled right (read (.expression right) p.eat) f) False src s B d n (read (.expression right) p.eat) ∧
        (read (.expression right) p.eat).Closed right := by
  have htaken := h.eatAs h.standing.isLexed
  refine (hread.operand right htaken).imp_right fun hnext => hnext.imp_right fun ⟨hnext, hclosed⟩ =>
    ⟨hnext.imp ?_, hclosed⟩
  rintro ns ⟨_, _, rfl, ⟨_, _, rfl, rfl, rfl⟩, f, rfl, hsettled⟩
  exact ⟨f, rfl, hsettled⟩

/-- An assignment to what was read so far. -/
theorem assignment_kept (hpower : power ≤ assignPower)
    (h : Held (fun ns => ns = [e]) False src s B d (n + 1) p) :
    ((readExpression read p.eat).wrap B.length .assignment).TooDeep ∨
      Held (Alone (Settled power ((readExpression read p.eat).wrap B.length .assignment))) False src s B d n
        ((readExpression read p.eat).wrap B.length .assignment) := by
  rcases rightOperand_kept hread assignPower h with hlost | hflawed | ⟨hnext, hclosed⟩
  · exact .inl hlost
  · exact .inr ((hflawed.wrapFlawed (Nat.le_refl _)).imp False.elim)
  · refine .inr ((hnext.enclose (k := .assignment) rfl fun _ => bound_other rfl).imp ?_)
    rintro ns ⟨e', rfl, hkind, _⟩
    exact ⟨e', rfl, .loose (isOneOf_of_kind hkind _) (hpower.trans (by decide)) (hclosed.congr rfl)⟩

/-- A conditional on what was read so far. -/
theorem ternary_kept (hsettled : Settled power p e) (hown : p.operatorPower? = some conditionalPower)
    (hpower : power ≤ conditionalPower) (h : Held (fun ns => ns = [e]) False src s B d (n + 1) p) :
    ((readExpression read ((readExpression read p.eat).require .colon)).wrap B.length .ternary).TooDeep ∨
      Held (Alone (Settled power ((readExpression read ((readExpression read p.eat).require .colon)).wrap B.length
        .ternary))) False src s B d n
        ((readExpression read ((readExpression read p.eat).require .colon)).wrap B.length .ternary) := by
  have lock := held_lockstep True False src s p.nodes.toList d n
  have hloose : isOneOf looseKinds e = false := by
    cases hsettled with
    | atomic atomic => exact isOneOf_subset atomic (by decide)
    | unary kind _ => exact isOneOf_of_kind kind _
    | binary _ kind _ _ _ _ => exact isOneOf_of_kind kind _
    | loose _ _ closed => exact absurd (closed.operator _ hown) (by decide)
  have heat := (h.standing.eat (Parser.atEnd_of_operatorPower? hown)).any
  -- the operand between the question mark and the colon may be anything
  rcases ((readExpression_inStep (hread.inStep True False _)).andThen (lock.require .colon)).out heat with
    hlost | hcolon
  · exact .inl (hread.tooDeep (.expression assignPower) hlost)
  rcases hread.operand assignPower hcolon with hlost | hflawed | ⟨hnext, hclosed⟩
  · exact .inl hlost
  · exact .inr (((h.resumeFlawed hflawed).wrapFlawed (Nat.le_refl _)).imp False.elim)
  · have hbound : ∀ {ns}, Then (fun ns => ns = [e]) (fun _ => True) ns → Bound .ternary ns := by
      rintro ns ⟨_, rest, rfl, rfl, _⟩
      exact ⟨e, rest, rfl, hloose⟩
    refine .inr (((h.resume hnext.any).enclose (k := .ternary) rfl hbound).imp ?_)
    rintro ns ⟨e', rfl, hkind, _⟩
    exact ⟨e', rfl, .loose (isOneOf_of_kind hkind _) hpower (hclosed.congr rfl)⟩

/-- A binary operator between what was read so far and a right operand. -/
theorem binary_kept {kind : ScriptKind} {own : Nat} {toRight : Bool} (hsettled : Settled power p e)
    (hkind : p.kind? = some kind) (hbinary : binaryPower? kind p.current.node.text = some (own, toRight))
    (hown : p.operatorPower? = some own) (hpower : power ≤ own)
    (h : Held (fun ns => ns = [e]) False src s B d (n + 1) p) :
    ((read (.expression (rightPower own)) p.eat).wrap B.length .binary).TooDeep ∨
      Held (Alone (Settled power ((read (.expression (rightPower own)) p.eat).wrap B.length .binary))) False src s B
        d n ((read (.expression (rightPower own)) p.eat).wrap B.length .binary) := by
  obtain ⟨hlow, htop, hright, hgroups⟩ := binaryPower?_bounds hbinary
  have hnode : p.current.node.kind = .script kind := by
    rw [← h.standing.placed.stands.kind_eq]
    exact eq_of_beq (Parser.isAt_of_kind? hkind)
  have htrivia : p.current.node.kind.isTrivia = false := by
    rw [hnode]
    by_contra hne
    rw [Bool.not_eq_false] at hne
    have hnone : binaryPower? kind p.current.node.text = none := by
      revert hne
      cases kind <;> first
        | exact fun _ => rfl
        | exact fun hne => Bool.noConfusion hne
    exact absurd (hbinary.symm.trans hnone) (Option.some_ne_none _)
  have hpow : isPower p.current.node = true ↔ own = topPower := by
    rw [← hgroups, hright]
    unfold isPower Node.isScript
    rw [hnode, Bool.and_eq_true, beq_iff_eq, beq_iff_eq, Kind.script.injEq]
  have hop : powerOf? p.current.node = some own := by
    unfold powerOf?
    rw [hnode]
    show (binaryPower? kind p.current.node.text).map Prod.fst = some own
    rw [hbinary]
    rfl
  obtain ⟨hleft, hloose⟩ := hsettled.left hown hlow
  rcases rightOperand_kept hread (rightPower own) h with hlost | hflawed | ⟨hnext, hclosed⟩
  · exact .inl hlost
  · exact .inr ((hflawed.wrapFlawed (Nat.le_refl _)).imp False.elim)
  · have hbound : ∀ {ns}, (∃ f, ns = [e] ++ significant [p.current.node] ++ [f] ∧
        Settled (rightPower own) (read (.expression (rightPower own)) p.eat) f) → Bound .binary ns := by
      rintro ns ⟨f, rfl, hf⟩
      obtain ⟨hbinds, hloose'⟩ := hf.right hlow htop
      rw [significant_single htrivia]
      refine ⟨e, p.current.node, f, own, rfl, hop, ?_, ?_, hloose, hloose'⟩
      · simp only [hpow]
        exact hleft
      · have hright : (if isPower p.current.node = true then own else own + 1) = rightPower own := by
          simp only [hpow]
          unfold rightPower
          split <;> omega
        rw [hright]
        exact hbinds
    refine .inr ((hnext.enclose (k := .binary) rfl hbound).imp ?_)
    rintro ns ⟨e', rfl, hkind', f, hparts, _⟩
    refine ⟨e', rfl, .binary own hkind' ?_ hpower htop (hclosed.congr rfl)⟩
    unfold binaryPowerOf?
    rw [hparts, significant_single htrivia]
    exact hop

/-- **The next operator keeps the operand settled**, or nothing more belongs to the expression. -/
theorem readContinuation_settled (hsettled : Settled power p e)
    (h : Held (fun ns => ns = [e]) False src s B d (n + 1) p) :
    (readContinuation read B.length power p).1.TooDeep ∨
      (Held (Alone (Settled power (readContinuation read B.length power p).1)) False src s B d n
          (readContinuation read B.length power p).1 ∧
        (readContinuation read B.length power p).2 = true) ∨
      readContinuation read B.length power p = (p, false) ∧ p.Closed power := by
  obtain ⟨q, hq⟩ := readSuffix_eq read B.length p
  cases hat : p.isAtSuffix with
  | true =>
      rw [hat, if_pos rfl] at hq
      have hsuffix : readContinuation read B.length power p = (q, true) := by
        unfold readContinuation
        simp only [hq, if_true]
      have hatomic : Held (Alone Atomic) False src s B d (n + 1) p :=
        h.imp fun hns => ⟨e, hns, hsettled.atomic_of_suffix hat⟩
      have hkept := readSuffix_kept hread true hatomic
      rw [hq] at hkept
      rw [hsuffix]
      rcases hkept with hlost | ⟨hnext, _⟩ | hstop
      · exact .inl hlost
      · exact .inr (.inl ⟨hnext.imp fun ⟨e, hns, he⟩ => ⟨e, hns, .atomic he⟩, rfl⟩)
      · exact Bool.noConfusion (Prod.mk.inj hstop).2
  | false =>
      have hoperator := readContinuation_operator read B.length power hat
      rw [hoperator]
      rcases readOperator_cases read B.length power p with ⟨hstop, hpower⟩ | ⟨hown, hpower, heq⟩ |
        ⟨hown, hpower, heq⟩ | ⟨kind, own, toRight, hkind, hbinary, hown, hpower, heq⟩
      · exact .inr (.inr ⟨hstop, hat, hpower⟩)
      · rw [heq]
        exact (assignment_kept hread hpower h).imp_right fun hnext => .inl ⟨hnext, rfl⟩
      · rw [heq]
        exact (ternary_kept hread hsettled hown hpower h).imp_right fun hnext => .inl ⟨hnext, rfl⟩
      · rw [heq]
        exact (binary_kept hread hsettled hkind hbinary hown hpower h).imp_right fun hnext => .inl ⟨hnext, rfl⟩

theorem operators_tooDeep (h : p.TooDeep) : (readContinuation read mark power p).1.TooDeep :=
  (readContinuation_inStep (held_lockstep False True src s [] d n) (hread.inStep False True [])
    (flawed_wrapsAll True src s [] d n) power mark mark).left h

/-- Behind a fault, operators are added to the operand without further ado. -/
theorem operators_flawed (h : HeldFlawed whole src s A d n p) (hmark : A.length ≤ mark) (fuel : Nat) :
    (Parser.repeatStep (readContinuation read mark power) fuel p).TooDeep ∨
      HeldFlawed whole src s A d n (Parser.repeatStep (readContinuation read mark power) fuel p) := by
  have hloop := (readContinuation_inStep (held_lockstep False whole src s A d n) (hread.inStep False whole A)
    (flawed_wrapsAll whole src s A d n) power mark mark).repeatStep fuel
  rcases hloop.keeps ⟨⟨rfl, hmark⟩, rfl, h⟩ with hlost | hlost | ⟨_, _, hnext⟩
  · exact .inl hlost
  · exact .inl hlost
  · exact .inr hnext

/-- **Operators are added to an operand until what follows binds less tightly.**  Each takes a token, so the tokens
that are left are enough. -/
theorem operators_settled {n' fuel : Nat} (hn : n' ≤ n) (hfuel : n' + 1 ≤ fuel)
    (h : Held (Alone (Settled power p)) False src s B d n' p) :
    let q := Parser.repeatStep (readContinuation read B.length power) fuel p
    q.TooDeep ∨ HeldFlawed False src s B d n q ∨
      Held (Alone (Settled power q)) False src s B d n q ∧ q.Closed power := by
  induction fuel generalizing n' p with
  | zero => exact absurd hfuel (Nat.not_succ_le_zero _)
  | succ fuel ih =>
      rcases h.alone_cases with hflawed | ⟨e, hsettled, hone⟩
      · exact (operators_flawed hread (hflawed.mono (fun h => h) hn) (Nat.le_refl _) (fuel + 1)).imp_right .inl
      · cases n' with
        | zero =>
            have hclosed : p.Closed power := Parser.closed_atEnd h.standing.atEnd
            simp only [Parser.repeatStep, readContinuation_closed read B.length hclosed]
            exact .inr (.inr ⟨h.mono (fun h => h) hn, hclosed⟩)
        | succ n' =>
            have hstep := readContinuation_settled (hread.fewer (Nat.le_of_succ_le hn)) hsettled hone
            rcases hnext : readContinuation read B.length power p with ⟨q, more⟩
            rw [hnext] at hstep
            rcases hstep with hlost | ⟨hq, hmore⟩ | ⟨hstop, hclosed⟩
            · refine .inl ?_
              simp only [Parser.repeatStep, hnext]
              cases more with
              | true => exact BothInStep.repeatStep_lost (operators_tooDeep hread) fuel hlost
              | false => exact hlost
            · obtain rfl : more = true := hmore
              simp only [Parser.repeatStep, hnext]
              exact ih (Nat.le_of_succ_le hn) (Nat.le_of_succ_le_succ hfuel) hq
            · obtain ⟨rfl, rfl⟩ := Prod.mk.inj hstop
              simp only [Parser.repeatStep, hnext]
              exact .inr (.inr ⟨h.mono (fun h => h) hn, hclosed⟩)

/-- The operand that an expression starts with. -/
theorem readOperand_settled (power : Nat) (h : HeldAny whole src s A d n p) :
    (readOperand read p).TooDeep ∨ HeldFlawed whole src s A d n (readOperand read p) ∨
      Held (Alone (Settled power (readOperand read p))) False src s p.nodes.toList d n (readOperand read p) := by
  unfold readOperand
  cases hunary : p.isAtAny unaryOperator with
  | false =>
      rw [if_neg Bool.false_ne_true]
      exact (hread.kept .primary (Nat.le_refl n) h).imp_right fun hnext => hnext.imp_right fun hnext =>
        hnext.imp fun ⟨e, hns, he⟩ => ⟨e, hns, .atomic he⟩
  | true =>
      rw [if_pos rfl]
      obtain ⟨k, hk, hkind⟩ := isAtAny_kind hunary
      have hend : p.atEnd = false := atEnd_of_kind? (by rintro rfl; exact absurd hk (by decide)) hkind
      have htrivia : p.current.node.kind.isTrivia = false := by
        rw [← h.standing.placed.stands.kind_eq, eq_of_beq (Parser.isAt_of_kind? hkind)]
        exact (by decide : ∀ k ∈ unaryOperator, (Kind.script k).isTrivia = false) k hk
      have heat := (h.standing.eat hend).mono (fun h => h) (Nat.sub_le n 1)
      rcases hread.operand unaryPower heat with hlost | hflawed | ⟨hnext, hclosed⟩
      · exact .inl hlost
      · exact .inr (.inl ((h.resumeFlawed hflawed).wrapFlawed h.le_mark))
      · have hbound : ∀ {ns}, Then (fun ns => ns = significant [p.current.node])
            (Alone (Settled unaryPower (read (.expression unaryPower) p.eat))) ns → Bound .unary ns := by
          rintro ns ⟨_, _, rfl, rfl, e, rfl, hsettled⟩
          rw [significant_single htrivia]
          exact ⟨_, e, rfl, hsettled.operand⟩
        refine .inr (.inr ((hnext.enclose (k := .unary) rfl hbound).imp ?_))
        rintro ns ⟨e, rfl, hkind, _⟩
        exact ⟨e, rfl, .unary hkind (hclosed.congr rfl)⟩

/-- An operand and the operators behind it. -/
theorem readOperands_settled (power : Nat) (h : HeldAny whole src s A d n p) :
    let q := (readOperand read p).loop (readContinuation read p.mark power)
    q.TooDeep ∨ HeldFlawed whole src s A d n q ∨
      Held (Alone (Settled power q)) False src s p.nodes.toList d n q ∧ q.Closed power := by
  unfold Parser.loop
  rcases readOperand_settled hread power h with hlost | hflawed | hsettled
  · exact .inl (BothInStep.repeatStep_lost (operators_tooDeep hread) _ hlost)
  · exact (operators_flawed hread hflawed h.le_mark _).imp_right .inl
  · have hbudget := Nat.succ_le_succ (readOperand read p).remaining_le
    obtain ⟨front, trivia, hover, hshaped⟩ := hsettled.nodes
    have hstanding := hsettled.standing
    have hnow : Held (Alone (Settled power (readOperand read p))) False src s p.nodes.toList d
        (readOperand read p).remaining (readOperand read p) :=
      ⟨⟨hstanding.placed, hstanding.depth, Nat.le_refl _, hstanding.arrows⟩, front, trivia, hover, hshaped⟩
    rcases operators_settled hread hstanding.remaining hbudget hnow with hlost | hflawed | hdone
    · exact .inl hlost
    · exact .inr (.inl (h.resumeFlawed hflawed))
    · exact .inr (.inr hdone)

/-! ### Constructions and groups -/

theorem readCallee_tooDeep (h : p.TooDeep) : (readCallee read p).TooDeep := by
  have hsuffixes := (readMarkedSuffix_inStep (held_lockstep False True src s [] d n)
    (hread.inStep False True []) (flawed_wrapsAll True src s [] d n) false p.mark p.mark).both
  unfold readCallee
  split
  · exact hread.tooDeep .primary h
  · exact BothInStep.repeatStep_lost hsuffixes.left _ (hread.tooDeep .primary h)

/-- What is constructed is in order. -/
theorem readCallee_kept (h : HeldAny whole src s A d n p) :
    (readCallee read p).TooDeep ∨ HeldAny whole src s A d n (readCallee read p) := by
  unfold readCallee
  have hprimary := hread.kept .primary (Nat.le_refl n) h
  split
  · rcases hprimary with hlost | hflawed | hone
    · exact .inl hlost
    · exact .inr hflawed.any
    · exact .inr (h.resume hone).any
  · have hsuffixes := (readMarkedSuffix_inStep (held_lockstep False whole src s A d n)
      (hread.inStep False whole A) (flawed_wrapsAll whole src s A d n) false p.mark p.mark).both
    rcases hprimary with hlost | hflawed | hone
    · exact .inl (BothInStep.repeatStep_lost hsuffixes.left _ hlost)
    · rcases (hsuffixes.repeatStep _).keeps ⟨⟨rfl, h.le_mark⟩, rfl, hflawed⟩ with hlost | hlost | ⟨_, _, hnext⟩
      · exact .inl hlost
      · exact .inl hlost
      · exact .inr hnext.any
    · have hatomic : BothInStep Parser.TooDeep (Same (Held (Alone Atomic) False src s p.nodes.toList d n))
          (Same (Held (Alone Atomic) False src s p.nodes.toList d n)) (readSuffix read p.mark false)
          (readSuffix read p.mark false) := by
        refine ⟨hsuffixes.left, hsuffixes.left, ?_⟩
        rintro q _ ⟨rfl, hq⟩
        have hmore := readSuffix_kept (n := n) hread false (hq.mono (fun h => h) (Nat.le_succ n))
        rcases hmore with hlost | ⟨hnext, _⟩ | hstop
        · exact .inl hlost
        · exact .inr (.inr ⟨⟨rfl, hnext⟩, rfl⟩)
        · refine .inr (.inr ⟨⟨rfl, ?_⟩, rfl⟩)
          rw [show readSuffix read p.mark false q = (q, false) from hstop]
          exact hq
      rcases ((hatomic.repeatStep _).out hone) with hlost | hnext
      · exact .inl hlost
      · exact .inr (h.resume hnext).any

/-- **A group that is read is one operand**, with or without an arrow behind it. -/
theorem readGroupAfresh_kept (h : p.Standing src s d (n + 1)) (hopens : p.isAt .leftParen = true) :
    (readGroupAfresh read p).TooDeep ∨
      Held (Alone Atomic) False src s p.nodes.toList d n (readGroupAfresh read p) := by
  have lock := held_lockstep True False src s p.nodes.toList d n
  have hread' := hread.inStep True False p.nodes.toList
  have first : Opening (Same (Parser.OpensGroup src s p.nodes.toList d (n + 1)))
      (Same (HeldAny False src s p.nodes.toList d n)) (SameMark p.nodes.toList.length) := by
    refine (standsAt_opening src s p.nodes.toList d n).weaken ?_
    rintro q _ ⟨rfl, hq⟩
    exact ⟨⟨rfl, hq.1⟩, Parser.atEnd_of_isAt (by decide) hq.2⟩
  have hexpect : BothInStep Parser.TooDeep (Same (Parser.OpensGroup src s p.nodes.toList d (n + 1)))
      (Same (HeldAny False src s p.nodes.toList d n)) (·.expect .leftParen) (·.expect .leftParen) := by
    refine ⟨(lock.expect _).left, (lock.expect _).right, ?_⟩
    rintro q _ ⟨rfl, hq⟩
    have heq : q.expect .leftParen = (q.eat, true) := by rw [Parser.expect, if_pos hq.2]
    rw [heq]
    exact .inr (.inr ⟨first.eat ⟨rfl, hq⟩, rfl⟩)
  have hrewind : InStep Parser.TooDeep (Same (HeldAny False src s p.nodes.toList d n))
      (Same (Parser.OpensGroup src s p.nodes.toList d (n + 1))) (·.rewind p) (·.rewind p) := by
    refine .same (fun h => h) fun {later} hlater => .inr ⟨⟨⟨?_, hlater.standing.depth, h.remaining,
      hlater.standing.arrows⟩, ?_⟩, hopens⟩
    · exact h.placed.congr (hlater.standing.placed.start_eq.trans h.placed.start_eq.symm) rfl rfl
    · obtain ⟨front, trivia, hover, _⟩ := hlater.nodes
      exact hover.rewind_nodes
  have hwrap {k : ScriptKind} (hk : k ∈ primaryKinds) : InStep Parser.TooDeep
      (Same (HeldAny False src s p.nodes.toList d n)) (Same (Held (Alone Atomic) False src s p.nodes.toList d n))
      (·.wrap p.mark k) (·.wrap p.mark k) := by
    refine .same (fun h => h) fun {later} hlater => .inr ?_
    have hat : p.AtPrimary src s p.nodes.toList d (n + 1) :=
      ⟨⟨h, rfl⟩, .leftParen, by decide, congrArg Kind.script? (eq_of_beq hopens)⟩
    exact ((primary_framing src s p.nodes.toList d n).frame hk ⟨rfl, hat⟩ ⟨rfl, hlater⟩).2
  have harrow := (((hrewind.andThen (readParametersFrom_inStep lock hread' first.mark hexpect)).andThen
    (lock.require .arrow)).andThen (readArrowBody_inStep lock hread')).andThen (hwrap (k := .arrowFunc) (by decide))
  have hfinish : InStep Parser.TooDeep (Same (HeldAny False src s p.nodes.toList d n))
      (Same (Held (Alone Atomic) False src s p.nodes.toList d n)) (finishGroup read p) (finishGroup read p) :=
    .ite (fun h => congrArg Bool.not (lock.ahead h).isAtArrow) (hwrap (by decide)) harrow
  rw [readGroupAfresh_eq]
  exact ((readElements_inStep lock hread' first).andThen hfinish).out ⟨⟨h, rfl⟩, hopens⟩

omit hread in
/-- An arrow function that was just read is remembered as one operand. -/
theorem remember_fine (h : p.Placed src s) {q : Parser}
    (hq : Held (Alone Atomic) False src s p.nodes.toList d (p.remaining - 1) q) :
    ∀ g ∈ (q.remember p.current.node.start p.mark).arrows, g.Fine src s := by
  intro g hg
  rcases List.mem_cons.mp hg with rfl | hg
  · obtain ⟨front, trivia, hover, hshaped⟩ := hq.nodes
    refine ⟨⟨front, trivia, remembered_nodes hover, hover.trivia_eq, hover.footed.resolve_left fun h => h.1,
      hshaped⟩, fun {p'} hp' hstart => ⟨?_, ?_⟩⟩
    · exact hq.standing.placed.congr (hp'.start_eq.trans hq.standing.placed.start_eq.symm) rfl rfl
    · obtain ⟨_, hkind, hlexer⟩ := h.token_unique hp' hstart.symm
      have hsame : p'.remaining = p.remaining := by
        unfold Parser.remaining Parser.atEnd Parser.isAt
        rw [hlexer, hkind]
      rw [hsame]
      exact hq.standing.remaining.trans (Nat.sub_le _ _)
  · exact hq.standing.arrows g hg

/-- A group is one operand, whether it is read or remembered. -/
theorem readGroup_kept (h : p.Standing src s d (n + 1)) (hopens : p.isAt .leftParen = true) :
    (readGroup read p).TooDeep ∨ Held (Alone Atomic) False src s p.nodes.toList d (n + 1) (readGroup read p) := by
  have hpos := p.remaining_pos (by decide) hopens
  have hleft := h.remaining
  cases hknown : p.knownArrow? with
  | some g =>
      rw [readGroup_known hknown]
      have hg := h.arrows g (List.mem_of_find?_eq_some hknown)
      have hstart := List.find?_some hknown
      rw [beq_iff_eq] at hstart
      obtain ⟨hplaced, hremaining⟩ := hg.placed h.placed hstart.symm
      obtain ⟨front, trivia, hnodes, htrivia, hfooted, hshaped⟩ := hg.nodes
      refine .inr ⟨⟨hplaced, h.depth, hremaining.trans hleft, h.arrows⟩, front, trivia, ⟨?_, htrivia, .inr hfooted⟩,
        hshaped⟩
      show (p.nodes ++ g.nodes.toArray).toList = _
      rw [Array.toList_append, hnodes, List.append_assoc]
  | none =>
      rw [readGroup_new hknown]
      have hfewest : p.Standing src s d (p.remaining - 1 + 1) :=
        ⟨h.placed, h.depth, by omega, h.arrows⟩
      have hfewer : p.remaining - 1 ≤ n := by omega
      rcases readGroupAfresh_kept (hread.fewer hfewer) hfewest hopens with hlost | hone
      · refine .inl ?_
        split
        · exact hlost
        · exact hlost
      · refine .inr ?_
        have hmore : p.remaining - 1 ≤ n + 1 := by omega
        split
        · exact hone.mono (fun h => h) hmore
        · have hfine := remember_fine h.placed hone
          obtain ⟨front, trivia, hover, hshaped⟩ := hone.nodes
          have hstanding := hone.standing
          exact ⟨⟨hstanding.placed.congr rfl rfl rfl, hstanding.depth, hstanding.remaining.trans hmore, hfine⟩,
            front, trivia, ⟨hover.nodes, hover.trivia_eq, hover.footed⟩, hshaped⟩

/-- **A primary expression is one operand.** -/
theorem readPrimary_kept (hobject : Goal.Kept src s d (n + 1) .object (read .object)) :
    Goal.Kept src s d (n + 1) .primary (readPrimary read) := by
  intro whole A p h
  have lock := held_lockstep True False src s p.nodes.toList d n
  have hread' := hread.inStep True False p.nodes.toList
  have frame := primary_framing src s p.nodes.toList d n
  have hone {f : Parser → Parser} {k : ScriptKind} (hkind : p.kind? = some k) (hk : k ∈ primaryTokens)
      (hf : InStep Parser.TooDeep (Same (Parser.AtPrimary src s p.nodes.toList d (n + 1)))
        (Same (Held (Alone Atomic) False src s p.nodes.toList d n)) f f) :
      (f p).TooDeep ∨ HeldFlawed whole src s A d (n + 1) (f p) ∨
        Held (Alone Atomic) False src s p.nodes.toList d (n + 1) (f p) :=
    (hf.out ⟨h.standsAt, k, hk, hkind⟩).imp_right fun hnext => .inr (hnext.mono (fun h => h) (Nat.le_succ n))
  have htoken : InStep Parser.TooDeep (Same (Parser.AtPrimary src s p.nodes.toList d (n + 1)))
      (Same (Held (Alone Atomic) False src s p.nodes.toList d n)) Parser.eat Parser.eat :=
    .of (fun h => h) (fun h => h) frame.single
  have hcallee : InStep Parser.TooDeep (Same (HeldAny False src s p.nodes.toList d n))
      (Same (HeldAny False src s p.nodes.toList d n)) (readCallee read) (readCallee read) :=
    .same (readCallee_tooDeep hread) (readCallee_kept hread)
  unfold readPrimary
  split
  · exact hone ‹_› (by decide) (readName_inStep lock hread' frame)
  · exact hone ‹_› (by decide) (readAsync_inStep lock hread' frame)
  · exact (readGroup_kept hread h.standing (Parser.isAt_of_kind? ‹_›)).imp_right .inr
  · exact hone ‹_› (by decide) (readArray_inStep lock hread' frame)
  · exact hobject h (Parser.isAt_of_kind? ‹_›)
  · exact hone ‹_› (by decide) (readFunctionExpression_inStep lock hread' frame)
  · exact hone ‹_› (by decide) (readNew_inStep lock hread' hcallee frame)
  · exact hone ‹_› (by decide) htoken
  · exact hone ‹_› (by decide) htoken
  · exact hone ‹_› (by decide) htoken
  · exact hone ‹_› (by decide) htoken
  · exact hone ‹_› (by decide) htoken
  · exact hone ‹_› (by decide) htoken
  · exact hone ‹_› (by decide) htoken
  · exact .inr (.inl (h.expected _))

/-- An object is one operand. -/
theorem readObject_kept : Goal.Kept src s d (n + 1) .object (readObject read) := by
  intro whole A p h hbrace
  have hobject := readObject_inStep (held_lockstep True False src s p.nodes.toList d n) (hread.inStep True False _)
    (primary_framing src s p.nodes.toList d n)
  exact (hobject.out ⟨h.standsAt, .leftBrace, by decide, congrArg Kind.script? (eq_of_beq hbrace)⟩).imp_right
    fun hnext => .inr (hnext.mono (fun h => h) (Nat.le_succ n))

end Operations

/-! ### All goals -/

/-- A level of nesting is entered, unless it is one too many. -/
theorem Held.enter (h : Held shape whole src s A d n p) :
    p.enter.1.TooDeep ∧ p.enter.2 = false ∨
      p.enter.2 = true ∧ d < maxDepth ∧ Held shape whole src s A (d + 1) n p.enter.1 ∧
        p.enter.1.nodes = p.nodes := by
  by_cases hd : maxDepth ≤ p.depth
  · exact .inl (Parser.enter_tooDeep hd)
  · rw [Nat.not_le] at hd
    obtain ⟨front, trivia, hover, hshaped⟩ := h.nodes
    have hstanding := h.standing
    rw [Parser.enter_eq hd]
    exact .inr ⟨rfl, hstanding.depth ▸ hd, ⟨⟨hstanding.placed.congr rfl rfl rfl,
      congrArg (· + 1) hstanding.depth, hstanding.remaining, hstanding.arrows⟩, front, trivia,
      ⟨hover.nodes, hover.trivia_eq, hover.footed⟩, hshaped⟩, rfl⟩

theorem Held.leave (h : Held shape whole src s A (d + 1) n p) : Held shape whole src s A d n p.leave := by
  obtain ⟨front, trivia, hover, hshaped⟩ := h.nodes
  have hstanding := h.standing
  exact ⟨⟨hstanding.placed.congr rfl rfl rfl, congrArg (· - 1) hstanding.depth, hstanding.remaining,
    hstanding.arrows⟩, front, trivia, ⟨hover.nodes, hover.trivia_eq, hover.footed⟩, hshaped⟩

/-- A statement is read in order if goals one level deeper are. -/
theorem readStatement_kept (hread : d < maxDepth → ReadsInOrder src s (d + 1) n read) :
    Goal.Kept src s d n .statement (readStatement read) := by
  intro clean whole A p h
  unfold readStatement
  rcases h.enter with ⟨hlost, hout⟩ | ⟨hin, hd, hp, _⟩
  · simp only [hout]
    exact .inl hlost
  · simp only [hin]
    have hstatement := readStatementHere_abreast (held_lockstep clean whole src s A (d + 1) n)
      ((hread hd).inStep clean whole A) ⟨rfl, hp⟩
    rcases hstatement with hlost | hlost | ⟨_, hnext⟩
    · exact .inl hlost
    · exact .inl hlost
    · exact .inr hnext.leave

/-- An expression is one operand if goals one level deeper are read in order. -/
theorem readOperation_kept (power : Nat) (hread : d < maxDepth → ReadsInOrder src s (d + 1) n read) :
    Goal.Kept src s d n (.expression power) (readOperation read power) := by
  intro whole A p h
  unfold readOperation
  rcases h.enter with ⟨hlost, hout⟩ | ⟨hin, hd, hp, hnodes⟩
  · simp only [hout]
    exact .inl hlost
  · simp only [hin]
    rcases readOperands_settled (hread hd) power hp with hlost | hflawed | ⟨hnext, hclosed⟩
    · exact .inl hlost
    · exact .inr (.inl hflawed.leave)
    · rw [hnodes] at hnext
      exact .inr (.inr ⟨hnext.leave.imp fun ⟨e, hns, he⟩ => ⟨e, hns, he.congr rfl⟩, hclosed.congr rfl⟩)

/-- At the end of the tokens there is no primary expression. -/
theorem readPrimary_end : Goal.Kept src s d 0 .primary (readPrimary read) := by
  intro whole A p h
  have hkind : p.kind? = some .endOfTokens := congrArg Kind.script? (eq_of_beq h.standing.atEnd)
  unfold readPrimary
  rw [hkind]
  exact .inr (.inl (h.expected _))

/-- **Every goal is read in order**, and an expression is one operand, as long as the fuel is enough for what the
goal can lead to. -/
theorem readGoal_kept (fuel : Nat) (goal : Goal) (hcost : goal.cost d n ≤ fuel) :
    goal.Kept src s d n (readGoal fuel goal) := by
  induction fuel generalizing goal d n with
  | zero => exact absurd hcost (by unfold Goal.cost; omega)
  | succ fuel ih =>
      have horder {d n : Nat} (hcost : ∀ goal : Goal, goal.cost d n ≤ fuel) :
          ReadsInOrder src s d n (readGoal fuel) :=
        ⟨fun goal {_} h => (readGoal_related tooDeep_simulation fuel).tooDeep goal h,
          fun {n'} goal hle => ih goal ((goal.cost_mono hle).trans (hcost goal))⟩
      have hdeeper (hcost : 3 * (maxDepth - d) + 3 * n ≤ fuel) (hd : d < maxDepth) :
          ReadsInOrder src s (d + 1) n (readGoal fuel) :=
        horder fun goal => (goal.cost_enter hd).trans hcost
      unfold Goal.cost at hcost
      cases goal with
      | statement => exact readStatement_kept (hdeeper (by omega))
      | expression power => exact readOperation_kept power (hdeeper (by omega))
      | primary =>
          cases n with
          | zero => exact readPrimary_end
          | succ n =>
              have hrank : Goal.primary.rank = 1 := rfl
              have hcheap : Goal.object.cost d (n + 1) ≤ fuel := by
                show 3 * (maxDepth - d) + 3 * (n + 1) + 0 + 1 ≤ fuel
                omega
              exact readPrimary_kept (horder fun goal => goal.cost_eat.trans (by omega)) (ih .object hcheap)
      | object =>
          cases n with
          | zero =>
              intro whole A p h hbrace
              have hend := h.standing.atEnd
              rw [Parser.atEnd_of_isAt (by decide) hbrace] at hend
              exact Bool.noConfusion hend
          | succ n => exact readObject_kept (horder fun goal => goal.cost_eat.trans (by omega))

/-! ## Whole scripts -/

/-- What is read from an entry point is in order. -/
theorem readFrom_kept (entry : Entry) (h : HeldAny True src s [] 0 p.remaining p) :
    (readFrom readGoal entry p).TooDeep ∨ HeldAny True src s [] 0 p.remaining (readFrom readGoal entry p) := by
  have lock := held_lockstep True True src s [] 0 p.remaining
  have horder : ReadsInOrder src s 0 p.remaining (readGoal (goalFuel p)) :=
    ⟨fun goal {_} h => (readGoal_related tooDeep_simulation _).tooDeep goal h,
      fun {n'} goal hle => readGoal_kept _ goal ((goal.cost_mono hle).trans (goal.cost_le_goalFuel p))⟩
  have hread := horder.inStep True True []
  have hfirst : InStep Parser.TooDeep (Same (HeldAny True src s [] 0 p.remaining))
      (Same (HeldAny True src s [] 0 p.remaining)) _ _ :=
    .ite (lock.isAtAny expressionStart) (readExpression_inStep hread)
      (.ite (lock.isAt .endOfTokens) (.stay fun h => h) (lock.expectedHere "expression"))
  unfold readFrom
  cases entry with
  | statements => exact (lock.loopUntil _ (readStatementOrFault_inStep lock hread)).out h
  | expression => exact (hfirst.andThen (lock.loopUntil _ lock.notExpected)).out h
  | attributes => exact (lock.loopUntil _ (readListedProperty_inStep lock hread .endOfTokens)).out h

/-- The parser starts with white space and comments only. -/
theorem held_ofSpan (hle : s.start ≤ s.stop) (hstop : s.stop ≤ src.size) :
    HeldAny True src s [] 0 (Parser.ofSpan src s).remaining (Parser.ofSpan src s) := by
  refine ⟨⟨.ofSpan hle hstop, rfl, Nat.le_refl _, fun g hg => absurd hg List.not_mem_nil⟩, [],
    (Lexer.ofSpan src s).skipped, ⟨rfl, readTrivia_count _ _ _ #[] 0 false, .inl ⟨trivial, rfl⟩⟩, .inr ?_⟩
  exact ⟨fun m hm => absurd hm List.not_mem_nil, wellBound_skipped _, trivial⟩

/-- A tree that was read without faults is in order. -/
theorem Held.finish (h : HeldAny True src s [] d n p) (hk : operationKinds.contains k = false)
    (hclean : (p.finish k).value.faulty = false) : (p.finish k).value.Throughout WellBound := by
  obtain ⟨front, trivia, hover, hshaped⟩ := h.nodes
  have hnodes := hover.nodes
  rw [List.nil_append] at hnodes
  unfold Parser.finish at hclean ⊢
  rw [hnodes] at hclean ⊢
  rcases hshaped with hflawed | htidy
  · exact absurd ((hflawed.branchAt _ _).symm.trans hclean) Bool.noConfusion
  · refine .branchAt (.branchAt (bound_other hk)) fun c hc => ?_
    rcases List.mem_append.mp hc with hc | hc
    · exact (htidy.nodes c hc).2
    · exact (htidy.spaces c hc).2

/-- In a script without faults, all operations have the operands they may have, unless nesting gets too deep. -/
theorem readEntry_wellBound (entry : Entry) (hle : s.start ≤ s.stop) (hstop : s.stop ≤ src.size)
    (hlevel : (readEntry src s entry).overflow = none) (hclean : (readEntry src s entry).value.faulty = false) :
    (readEntry src s entry).value.Throughout WellBound := by
  rw [← readEntryWith_readGoal] at hlevel hclean ⊢
  have hrest := (held_lockstep True True src s [] 0 (Parser.ofSpan src s).remaining).eatRest
  rcases readFrom_kept entry (held_ofSpan hle hstop) with hlost | hread
  · exact absurd (hrest.left hlost) (Parser.not_tooDeep hlevel)
  · rcases hrest.out hread with hlost | hall
    · exact absurd hlost (Parser.not_tooDeep hlevel)
    · exact hall.finish (by cases entry <;> rfl) hclean

/-- **In a script without faults, all operations have the operands they may have**, from any entry point, known or
not.  An unknown one makes a fault. -/
theorem readNamed_wellBound (entry : String) (hle : s.start ≤ s.stop) (hstop : s.stop ≤ src.size)
    (hlevel : (readNamed src s entry).overflow = none) (hclean : (readNamed src s entry).value.faulty = false) :
    (readNamed src s entry).value.Throughout WellBound := by
  cases hname : Entry.ofName? entry with
  | some known =>
      have hread : readNamed src s entry = readEntry src s known := by simp only [readNamed, hname]
      rw [hread] at hlevel hclean ⊢
      exact readEntry_wellBound known hle hstop hlevel hclean
  | none =>
      simp only [readNamed, hname] at hclean
      exact Bool.noConfusion hclean

end ComponentMarkup.Script
