import ComponentMarkup.Script.Grammar

/-!
# Script parsers in lockstep

Two parsers that have the same tokens ahead take the same decisions, whatever lies behind them: the rules look at
the current token and at what follows, and put branches at marks they set themselves.  So a relation between
parsers that the steps of the parser keep is kept by every rule.  The parsers may differ in their nodes, and in
how the goals of the grammar are read.

Two parsers may also part ways for good, say because nesting gets too deep in only one of them.  What is said of
two parsers here holds unless one of them is lost, and a lost parser stays lost.

* `Beyond` — no step of the parser brings back a lost parser;
* `Lockstep` — a relation of parsers with the same tokens ahead that the steps of the parser keep;
* `InStep`, `BothInStep` — two ways to go on that lead from one relation to another, unless a parser is lost;
* `ReadersInStep` — two readers of goals that keep a relation.  The lemma about a rule is named for the rule and
  says that it does if its readers do.

Rules for what starts with a token of its own, such as an array, may lead from one relation to another: it is
enough that taking this first token does (`Opening`).
-/

namespace ComponentMarkup.Script

open ComponentMarkup.Text ComponentMarkup.Tree

variable {Lost : Parser → Prop} {R₀ R R' R'' : Parser → Parser → Prop} {M : Nat → Nat → Prop}
  {p q : Parser} {m n : Nat} {f g f' g' : Parser → Parser} {step step' : Parser → Parser × Bool}
  {read read' : Reader} {k : ScriptKind}

/-! ## Ways to go on -/

/-- Parsers that are related, with the same answer. -/
def Both (R : Parser → Parser → Prop) (x y : Parser × Bool) : Prop :=
  R x.1 y.1 ∧ x.2 = y.2

/-- Related parsers, unless one of them is lost. -/
def Abreast (Lost : Parser → Prop) (R : Parser → Parser → Prop) (p q : Parser) : Prop :=
  Lost p ∨ Lost q ∨ R p q

/-- Two ways to go on that lead from one relation to another, unless a parser is lost. -/
structure InStep (Lost : Parser → Prop) (R R' : Parser → Parser → Prop) (f g : Parser → Parser) : Prop where
  left : ∀ {p}, Lost p → Lost (f p)
  right : ∀ {q}, Lost q → Lost (g q)
  keeps : ∀ {p q}, R p q → Abreast Lost R' (f p) (g q)

/-- Two steps that lead from one relation to another and give the same answer, unless a parser is lost. -/
structure BothInStep (Lost : Parser → Prop) (R R' : Parser → Parser → Prop)
    (step step' : Parser → Parser × Bool) : Prop where
  left : ∀ {p}, Lost p → Lost (step p).1
  right : ∀ {q}, Lost q → Lost (step' q).1
  keeps : ∀ {p q}, R p q → Lost (step p).1 ∨ Lost (step' q).1 ∨ Both R' (step p) (step' q)

/-- Two steps that lead from one relation to another and ask for more, or change nothing and ask for no more,
unless a parser is lost. -/
structure MoreInStep (Lost : Parser → Prop) (R R' : Parser → Parser → Prop)
    (step step' : Parser → Parser × Bool) : Prop where
  left : ∀ {p}, Lost p → Lost (step p).1
  right : ∀ {q}, Lost q → Lost (step' q).1
  keeps : ∀ {p q}, R p q → Lost (step p).1 ∨ Lost (step' q).1 ∨
    (R' (step p).1 (step' q).1 ∧ (step p).2 = true ∧ (step' q).2 = true) ∨
    step p = (p, false) ∧ step' q = (q, false)

/-- Two readers of goals that keep a relation, unless a parser is lost.  They are asked for an object only where
one starts. -/
structure ReadersInStep (Lost : Parser → Prop) (R : Parser → Parser → Prop) (read read' : Reader) : Prop where
  left : ∀ (goal : Goal) {p}, Lost p → Lost (read goal p)
  right : ∀ (goal : Goal) {q}, Lost q → Lost (read' goal q)
  keeps : ∀ (goal : Goal) {p q}, R p q → (goal = .object → p.isAt .leftBrace = true) →
    Abreast Lost R (read goal p) (read' goal q)

/-- The relation of related parsers that have related marks in mind. -/
def Marked (M : Nat → Nat → Prop) (m n : Nat) (R : Parser → Parser → Prop) (p q : Parser) : Prop :=
  M m n ∧ R p q

theorem Abreast.of (h : R p q) : Abreast Lost R p q :=
  .inr (.inr h)

theorem Abreast.map (h : Abreast Lost R p q) (himp : R p q → R' p q) : Abreast Lost R' p q :=
  h.imp_right fun h => h.imp_right himp

namespace InStep

/-- Ways to go on that keep parsers lost and lead from one relation to another. -/
theorem of (left : ∀ {p}, Lost p → Lost (f p)) (right : ∀ {q}, Lost q → Lost (g q))
    (keeps : ∀ {p q}, R p q → R' (f p) (g q)) : InStep Lost R R' f g :=
  ⟨left, right, fun h => .of (keeps h)⟩

theorem stay (himp : ∀ {p q}, R p q → R' p q) : InStep Lost R R' (fun p => p) (fun q => q) :=
  .of (fun h => h) (fun h => h) himp

theorem weaken (h : InStep Lost R R' f g) (himp : ∀ {p q}, R₀ p q → R p q) : InStep Lost R₀ R' f g :=
  ⟨h.left, h.right, fun hpq => h.keeps (himp hpq)⟩

theorem andThen (h : InStep Lost R R' f g) (h' : InStep Lost R' R'' f' g') :
    InStep Lost R R'' (fun p => f' (f p)) (fun q => g' (g q)) := by
  refine ⟨fun hp => h'.left (h.left hp), fun hq => h'.right (h.right hq), fun hpq => ?_⟩
  rcases h.keeps hpq with hlost | hlost | hnext
  · exact .inl (h'.left hlost)
  · exact .inr (.inl (h'.right hlost))
  · exact h'.keeps hnext

/-- The same choice by looking at related parsers.  Each way to go on may rely on it. -/
theorem ite_of {c c' : Parser → Bool} (hc : ∀ {p q}, R p q → c p = c' q)
    (h : InStep Lost (fun p q => R p q ∧ c p = true) R' f g)
    (h' : InStep Lost (fun p q => R p q ∧ c p = false) R' f' g') :
    InStep Lost R R' (fun p => if c p then f p else f' p) (fun q => if c' q then g q else g' q) := by
  constructor
  · intro p hp
    cases c p with
    | true => exact h.left hp
    | false => exact h'.left hp
  · intro q hq
    cases c' q with
    | true => exact h.right hq
    | false => exact h'.right hq
  · intro p q hpq
    rw [← hc hpq]
    cases hp : c p with
    | true => exact h.keeps ⟨hpq, hp⟩
    | false => exact h'.keeps ⟨hpq, hp⟩

/-- The same choice by looking at related parsers. -/
theorem ite {c c' : Parser → Bool} (hc : ∀ {p q}, R p q → c p = c' q) (h : InStep Lost R R' f g)
    (h' : InStep Lost R R' f' g') :
    InStep Lost R R' (fun p => if c p then f p else f' p) (fun q => if c' q then g q else g' q) :=
  .ite_of hc (h.weaken fun hpq => hpq.1) (h'.weaken fun hpq => hpq.1)

/-- The same choice by something else than the parsers. -/
theorem given (b : Bool) (h : InStep Lost R R' f g) (h' : InStep Lost R R' f' g') :
    InStep Lost R R' (fun p => if b then f p else f' p) (fun q => if b then g q else g' q) :=
  .ite (fun _ => rfl) h h'

/-- A step whose answer decides how to go on. -/
theorem bind {F G : Bool → Parser → Parser} (h : BothInStep Lost R R' step step')
    (h' : ∀ b, InStep Lost R' R'' (F b) (G b)) :
    InStep Lost R R'' (fun p => F (step p).2 (step p).1) (fun q => G (step' q).2 (step' q).1) := by
  refine ⟨fun hp => (h' _).left (h.left hp), fun hq => (h' _).right (h.right hq), fun hpq => ?_⟩
  rcases h.keeps hpq with hlost | hlost | ⟨hnext, hanswer⟩
  · exact .inl ((h' _).left hlost)
  · exact .inr (.inl ((h' _).right hlost))
  · rw [hanswer]
    exact (h' _).keeps hnext

/-- Marks may be set before going on. -/
theorem withMark {F G : Nat → Parser → Parser} (hmark : ∀ {p q}, R p q → M p.mark q.mark)
    (h : ∀ m n, InStep Lost (Marked M m n R) (Marked M m n R') (F m) (G n)) :
    InStep Lost R R' (fun p => F p.mark p) (fun q => G q.mark q) :=
  ⟨fun hp => (h _ 0).left hp, fun hq => (h 0 _).right hq,
    fun hpq => ((h _ _).keeps ⟨hmark hpq, hpq⟩).map And.right⟩

end InStep

namespace BothInStep

theorem answer (h : InStep Lost R R' f g) (b : Bool) :
    BothInStep Lost R R' (fun p => (f p, b)) (fun q => (g q, b)) :=
  ⟨h.left, h.right, fun hpq => (h.keeps hpq).imp_right fun h => h.imp_right fun h => ⟨h, rfl⟩⟩

theorem after (h : InStep Lost R R' f g) (h' : BothInStep Lost R' R'' step step') :
    BothInStep Lost R R'' (fun p => step (f p)) (fun q => step' (g q)) := by
  refine ⟨fun hp => h'.left (h.left hp), fun hq => h'.right (h.right hq), fun hpq => ?_⟩
  rcases h.keeps hpq with hlost | hlost | hnext
  · exact .inl (h'.left hlost)
  · exact .inr (.inl (h'.right hlost))
  · exact h'.keeps hnext

theorem fst (h : BothInStep Lost R R' step step') :
    InStep Lost R R' (fun p => (step p).1) (fun q => (step' q).1) :=
  ⟨h.left, h.right, fun hpq => (h.keeps hpq).imp_right fun h => h.imp_right And.left⟩

/-- The same choice by looking at related parsers. -/
theorem ite {c c' : Parser → Bool} {other other' : Parser → Parser × Bool}
    (hc : ∀ {p q}, R p q → c p = c' q) (h : BothInStep Lost R R' step step')
    (h' : BothInStep Lost R R' other other') :
    BothInStep Lost R R' (fun p => if c p then step p else other p)
      (fun q => if c' q then step' q else other' q) := by
  constructor
  · intro p hp
    cases c p with
    | true => exact h.left hp
    | false => exact h'.left hp
  · intro q hq
    cases c' q with
    | true => exact h.right hq
    | false => exact h'.right hq
  · intro p q hpq
    rw [← hc hpq]
    cases c p with
    | true => exact h.keeps hpq
    | false => exact h'.keeps hpq

/-- A step whose answer decides on the next step. -/
theorem bind {F G : Bool → Parser → Parser × Bool} (h : BothInStep Lost R R' step step')
    (h' : ∀ b, BothInStep Lost R' R'' (F b) (G b)) :
    BothInStep Lost R R'' (fun p => F (step p).2 (step p).1) (fun q => G (step' q).2 (step' q).1) := by
  refine ⟨fun hp => (h' _).left (h.left hp), fun hq => (h' _).right (h.right hq), fun hpq => ?_⟩
  rcases h.keeps hpq with hlost | hlost | ⟨hnext, hanswer⟩
  · exact .inl ((h' _).left hlost)
  · exact .inr (.inl ((h' _).right hlost))
  · rw [hanswer]
    exact (h' _).keeps hnext

/-- Marks may be kept in mind during a step. -/
theorem marked (h : BothInStep Lost R R' step step') (M : Nat → Nat → Prop) (m n : Nat) :
    BothInStep Lost (Marked M m n R) (Marked M m n R') step step' :=
  ⟨h.left, h.right, fun hpq => (h.keeps hpq.2).imp_right fun h => h.imp_right fun h =>
    ⟨⟨hpq.1, h.1⟩, h.2⟩⟩

/-- A parser that is lost stays so while a step is repeated. -/
theorem repeatStep_lost (hstep : ∀ {p}, Lost p → Lost (step p).1) (fuel : Nat) (h : Lost p) :
    Lost (Parser.repeatStep step fuel p) := by
  induction fuel generalizing p with
  | zero => exact h
  | succ fuel ih =>
      have hnext := hstep h
      rcases hp : step p with ⟨p', b⟩
      rw [hp] at hnext
      simp only [Parser.repeatStep, hp]
      cases b with
      | true => exact ih hnext
      | false => exact hnext

/-- A step may be repeated. -/
theorem repeatStep (hstep : BothInStep Lost R R step step') (fuel : Nat) :
    InStep Lost R R (Parser.repeatStep step fuel) (Parser.repeatStep step' fuel) := by
  refine ⟨repeatStep_lost hstep.left fuel, repeatStep_lost hstep.right fuel, ?_⟩
  induction fuel with
  | zero => exact fun h => .of h
  | succ fuel ih =>
      intro p q h
      have hnext := hstep.keeps h
      rcases hp : step p with ⟨p', b⟩
      rcases hq : step' q with ⟨q', c⟩
      rw [hp, hq] at hnext
      simp only [Parser.repeatStep, hp, hq]
      rcases hnext with hlost | hlost | ⟨hboth, hmore⟩
      · refine .inl ?_
        cases b with
        | true => exact repeatStep_lost hstep.left fuel hlost
        | false => exact hlost
      · refine .inr (.inl ?_)
        cases c with
        | true => exact repeatStep_lost hstep.right fuel hlost
        | false => exact hlost
      · obtain rfl : b = c := hmore
        cases b with
        | true => exact ih hboth
        | false => exact .of hboth

end BothInStep

namespace MoreInStep

theorem more (h : InStep Lost R R' f g) : MoreInStep Lost R R' (fun p => (f p, true)) (fun q => (g q, true)) :=
  ⟨h.left, h.right, fun hpq => (h.keeps hpq).imp_right fun h => h.imp_right fun h => .inl ⟨h, rfl, rfl⟩⟩

theorem stop : MoreInStep Lost R R' (fun p => (p, false)) (fun q => (q, false)) :=
  ⟨fun h => h, fun h => h, fun _ => .inr (.inr (.inr ⟨rfl, rfl⟩))⟩

/-- The same choice by looking at related parsers.  The first way to go on may rely on it. -/
theorem ite {c c' : Parser → Bool} {other other' : Parser → Parser × Bool}
    (hc : ∀ {p q}, R p q → c p = c' q)
    (h : MoreInStep Lost (fun p q => R p q ∧ c p = true) R' step step') (h' : MoreInStep Lost R R' other other') :
    MoreInStep Lost R R' (fun p => if c p then step p else other p)
      (fun q => if c' q then step' q else other' q) := by
  constructor
  · intro p hp
    cases c p with
    | true => exact h.left hp
    | false => exact h'.left hp
  · intro q hq
    cases c' q with
    | true => exact h.right hq
    | false => exact h'.right hq
  · intro p q hpq
    rw [← hc hpq]
    cases hp : c p with
    | true => exact h.keeps ⟨hpq, hp⟩
    | false => exact h'.keeps hpq

/-- If nothing is lost, a relation that is kept when there is more is kept. -/
theorem both (h : MoreInStep Lost R R step step') : BothInStep Lost R R step step' := by
  refine ⟨h.left, h.right, fun hpq => (h.keeps hpq).imp_right fun hnext => hnext.imp_right fun hnext => ?_⟩
  rcases hnext with ⟨hnext, hp, hq⟩ | ⟨hp, hq⟩
  · exact ⟨hnext, hp.trans hq.symm⟩
  · rw [hp, hq]
    exact ⟨hpq, rfl⟩

end MoreInStep

/-! ## Parsers with the same tokens ahead -/

/-- The kinds of branches that operators make. -/
def operationKinds : List ScriptKind :=
  [.unary, .binary, .ternary, .member, .index, .call, .postfixExpr]

/-- Whether the rules make branches of a kind other than for an operator. -/
def isPlainBranch (k : ScriptKind) : Bool :=
  !operationKinds.contains k && k != .embed

/-- The kinds of branches that stand for a primary expression. -/
def primaryKinds : List ScriptKind :=
  [.array, .object, .arrowFunc, .funcExpr, .newExpr, .paren]

theorem isPlainBranch_of_primary (h : k ∈ primaryKinds) : isPlainBranch k = true := by
  revert k
  decide

/-- Two parsers that the rules cannot tell apart by what is ahead of them. -/
structure Parser.SameAhead (p q : Parser) : Prop where
  kind : p.current.kind = q.current.kind
  word : p.current.node.kind = q.current.node.kind
  text : p.current.node.text = q.current.node.text
  newline : p.newline = q.newline
  ahead : p.nextIs = q.nextIs
  budget : p.budget = q.budget

/-- No step of the parser brings back a lost parser. -/
structure Beyond (Lost : Parser → Prop) : Prop where
  check : ∀ {p} (holds : Bool), Lost p → Lost (p.check holds)
  eat : ∀ {p}, Lost p → Lost p.eat
  eatWithKind : ∀ {p} (k : ScriptKind), Lost p → Lost (p.eatWithKind k)
  wrap : ∀ {p} (mark : Nat) (k : ScriptKind), Lost p → Lost (p.wrap mark k)
  expected : ∀ {p} (thing : String), Lost p → Lost (p.expected thing)
  unexpected : ∀ {p}, Lost p → Lost p.unexpected
  eatReserved : ∀ {p}, Lost p → Lost p.eatReserved
  closeAt : ∀ {p} (mark : Nat) (k : ScriptKind), Lost p → Lost (p.closeAt mark k)

/-- A relation between parsers with the same tokens ahead that the steps of the parser keep.  `M` relates marks
that are set at related parsers. -/
structure Lockstep (Lost : Parser → Prop) (R : Parser → Parser → Prop) (M : Nat → Nat → Prop) : Prop where
  beyond : Beyond Lost
  ahead : ∀ {p q}, R p q → p.SameAhead q
  mark : ∀ {p q}, R p q → M p.mark q.mark
  isFunction : ∀ {p q m n}, M m n → R p q →
    (p.nodes[m]?).any (·.isScript .funcExpr) = (q.nodes[n]?).any (·.isScript .funcExpr)
  check : ∀ {p q} (holds : Bool), R p q → R (p.check holds) (q.check holds)
  eat : ∀ {p q}, R p q → R p.eat q.eat
  rename : ∀ {p q}, p.isAtAny (.ident :: Parser.reserved) = true → R p q →
    R (p.eatAs (p.current.node.withKind (.script .ident)))
      (q.eatAs (q.current.node.withKind (.script .ident)))
  wrap : ∀ {p q m n} {k : ScriptKind}, isPlainBranch k = true → M m n → R p q →
    R (p.wrap m k) (q.wrap n k)
  expected : ∀ {p q} (thing : String), R p q → R (p.expected thing) (q.expected thing)
  unexpected : ∀ {p q}, R p q → R p.unexpected q.unexpected
  eatReserved : ∀ {p q}, R p q → R p.eatReserved q.eatReserved
  closeAt : ∀ {p q m n} (k : ScriptKind), M m n → R p q → R (p.closeAt m k) (q.closeAt n k)

/-- Taking the first token of something leads from one relation to another. -/
structure Opening (R₀ R : Parser → Parser → Prop) (M : Nat → Nat → Prop) : Prop where
  mark : ∀ {p q}, R₀ p q → M p.mark q.mark
  eat : ∀ {p q}, R₀ p q → R p.eat q.eat
  eatKnown : ∀ {p q} (k : ScriptKind), R₀ p q → R (p.eatKnown k) (q.eatKnown k)

/-- A primary expression, from its first token to the branch around it, leads from one relation to another. -/
structure Framing (R₀ R R' : Parser → Parser → Prop) (M : Nat → Nat → Prop) : Prop extends
    Opening R₀ R M where
  single : ∀ {p q}, R₀ p q → R' p.eat q.eat
  frame : ∀ {p q p' q'} {k : ScriptKind}, k ∈ primaryKinds → R₀ p q → R p' q' →
    R' (p'.wrap p.mark k) (q'.wrap q.mark k)

namespace Parser.SameAhead

theorem kind? (h : p.SameAhead q) : p.kind? = q.kind? := by
  unfold Parser.kind?
  rw [h.kind]

theorem isAt (h : p.SameAhead q) (k : ScriptKind) : p.isAt k = q.isAt k := by
  unfold Parser.isAt
  rw [h.kind]

theorem isAtAny (h : p.SameAhead q) (ks : List ScriptKind) : p.isAtAny ks = q.isAtAny ks := by
  unfold Parser.isAtAny
  rw [h.kind?]

theorem isAtArrow (h : p.SameAhead q) : isAtArrow p = isAtArrow q := by
  unfold ComponentMarkup.Script.isAtArrow
  rw [h.isAt, h.newline]

theorem isFault (h : p.SameAhead q) : p.current.node.isFault = q.current.node.isFault := by
  unfold Node.isFault
  rw [h.word]

end Parser.SameAhead

/-- An identifier or a reserved word is a word. -/
theorem isAtAny_words (h : p.isAt .ident = true ∨ p.isAtAny Parser.reserved = true) :
    p.isAtAny (.ident :: Parser.reserved) = true := by
  unfold Parser.isAt Parser.isAtAny Parser.kind? at *
  rcases h with h | h
  · rw [beq_iff_eq.mp h]
    rfl
  · cases hk : p.current.kind.script? with
    | none =>
        rw [hk] at h
        exact absurd h Bool.false_ne_true
    | some k =>
        rw [hk] at h
        exact List.elem_eq_true_of_mem (List.mem_cons_of_mem _ (List.mem_of_elem_eq_true h))

/-! ## Steps -/

namespace Lockstep

variable (lock : Lockstep Lost R M)

include lock

/-- Marks may be kept in mind. -/
theorem marked (m n : Nat) : Lockstep Lost (Marked M m n R) M where
  beyond := lock.beyond
  ahead h := lock.ahead h.2
  mark h := lock.mark h.2
  isFunction hmark h := lock.isFunction hmark h.2
  check holds h := ⟨h.1, lock.check holds h.2⟩
  eat h := ⟨h.1, lock.eat h.2⟩
  rename hword h := ⟨h.1, lock.rename hword h.2⟩
  wrap hk hmark h := ⟨h.1, lock.wrap hk hmark h.2⟩
  expected thing h := ⟨h.1, lock.expected thing h.2⟩
  unexpected h := ⟨h.1, lock.unexpected h.2⟩
  eatReserved h := ⟨h.1, lock.eatReserved h.2⟩
  closeAt k hmark h := ⟨h.1, lock.closeAt k hmark h.2⟩

theorem kind? (h : R p q) : p.kind? = q.kind? :=
  (lock.ahead h).kind?

theorem isAt (k : ScriptKind) (h : R p q) : p.isAt k = q.isAt k :=
  (lock.ahead h).isAt k

theorem isAtAny (ks : List ScriptKind) (h : R p q) : p.isAtAny ks = q.isAtAny ks :=
  (lock.ahead h).isAtAny ks

theorem isNotAtAny (ks : List ScriptKind) (h : R p q) : (!p.isAtAny ks) = !q.isAtAny ks :=
  congrArg Bool.not (lock.isAtAny ks h)

theorem isAtOnLine (k : ScriptKind) (h : R p q) : (p.isAt k && !p.newline) = (q.isAt k && !q.newline) := by
  rw [lock.isAt k h, (lock.ahead h).newline]

theorem onLineAt (k : ScriptKind) (h : R p q) : (!p.newline && p.isAt k) = (!q.newline && q.isAt k) := by
  rw [lock.isAt k h, (lock.ahead h).newline]

theorem onLineAtAny (ks : List ScriptKind) (h : R p q) :
    (!p.newline && p.isAtAny ks) = (!q.newline && q.isAtAny ks) := by
  rw [lock.isAtAny ks h, (lock.ahead h).newline]

theorem isAtAnyOnLine (ks : List ScriptKind) (h : R p q) :
    (p.isAtAny ks && !p.newline) = (q.isAtAny ks && !q.newline) := by
  rw [lock.isAtAny ks h, (lock.ahead h).newline]

theorem isAtEither (k l : ScriptKind) (h : R p q) : (p.isAt k || p.isAt l) = (q.isAt k || q.isAt l) := by
  rw [lock.isAt k h, lock.isAt l h]

theorem isAtOrAny (k : ScriptKind) (ks : List ScriptKind) (h : R p q) :
    (p.isAt k || p.isAtAny ks) = (q.isAt k || q.isAtAny ks) := by
  rw [lock.isAt k h, lock.isAtAny ks h]

theorem takeKnown (k : ScriptKind) (h : R p q) : R (p.eatKnown k) (q.eatKnown k) := by
  unfold Parser.eatKnown
  rw [lock.isAt k h]
  exact lock.eat (lock.check _ h)

theorem opening : Opening R R M :=
  ⟨lock.mark, lock.eat, lock.takeKnown⟩

/-- A primary expression may end where a relation that was reached with its first token is kept. -/
theorem framing (first : Opening R₀ R M) : Framing R₀ R R M :=
  ⟨first, first.eat, fun hk h₀ h => lock.wrap (isPlainBranch_of_primary hk) (first.mark h₀) h⟩

theorem next : InStep Lost R R Parser.eat Parser.eat :=
  .of lock.beyond.eat lock.beyond.eat lock.eat

theorem known (k : ScriptKind) : InStep Lost R R (·.eatKnown k) (·.eatKnown k) :=
  .of (fun h => lock.beyond.eat (lock.beyond.check _ h)) (fun h => lock.beyond.eat (lock.beyond.check _ h))
    (lock.takeKnown k)

/-- A word is taken as an identifier. -/
theorem asIdent : InStep Lost (fun p q => R p q ∧ p.isAtAny (.ident :: Parser.reserved) = true) R
    (·.eatWithKind .ident) (·.eatWithKind .ident) := by
  refine .of (lock.beyond.eatWithKind .ident) (lock.beyond.eatWithKind .ident) fun {p q} h => ?_
  unfold Parser.eatWithKind
  rw [(lock.ahead h.1).isFault]
  exact lock.rename h.2 (lock.check _ h.1)

theorem expectedHere (thing : String) : InStep Lost R R (·.expected thing) (·.expected thing) :=
  .of (lock.beyond.expected thing) (lock.beyond.expected thing) (lock.expected thing)

theorem notExpected : InStep Lost R R Parser.unexpected Parser.unexpected :=
  .of lock.beyond.unexpected lock.beyond.unexpected lock.unexpected

theorem eatIf (k : ScriptKind) : BothInStep Lost R R (·.eatIf k) (·.eatIf k) :=
  .ite (lock.isAt k) (.answer lock.next true) (.answer (.stay fun h => h) false)

theorem skip (k : ScriptKind) : InStep Lost R R (·.skip k) (·.skip k) :=
  (lock.eatIf k).fst

theorem expect (k : ScriptKind) : BothInStep Lost R R (·.expect k) (·.expect k) := by
  have hreserved : InStep Lost R R Parser.eatReserved Parser.eatReserved :=
    .of lock.beyond.eatReserved lock.beyond.eatReserved lock.eatReserved
  refine .ite (lock.isAt k) (.answer lock.next true)
    (.ite (fun {p q} h => ?_) (.answer hreserved false) (.answer (lock.expectedHere k.title) false))
  rw [lock.isAtAny Parser.reserved h]

theorem require (k : ScriptKind) : InStep Lost R R (·.require k) (·.require k) :=
  (lock.expect k).fst

/-- A branch starts at marks kept in mind. -/
theorem wrapMarked (hk : isPlainBranch k = true) :
    InStep Lost (Marked M m n R) (Marked M m n R) (·.wrap m k) (·.wrap n k) :=
  .of (lock.beyond.wrap m k) (lock.beyond.wrap n k) fun h => ⟨h.1, lock.wrap hk h.1 h.2⟩

/-- A bracket at marks kept in mind is closed. -/
theorem closeMarked (k : ScriptKind) :
    InStep Lost (Marked M m n R) (Marked M m n R) (·.closeAt m k) (·.closeAt n k) :=
  .of (lock.beyond.closeAt m k) (lock.beyond.closeAt n k) fun h => ⟨h.1, lock.closeAt k h.1 h.2⟩

/-- A branch starts where the parsers were before. -/
theorem wrapFrom (hmark : ∀ {p q}, R₀ p q → M p.mark q.mark) (h : InStep Lost R₀ R f g)
    (hk : isPlainBranch k = true) :
    InStep Lost R₀ R (fun p => (f p).wrap p.mark k) (fun q => (g q).wrap q.mark k) := by
  refine ⟨fun hp => lock.beyond.wrap _ k (h.left hp), fun hq => lock.beyond.wrap _ k (h.right hq),
    fun hpq => ?_⟩
  rcases h.keeps hpq with hlost | hlost | hnext
  · exact .inl (lock.beyond.wrap _ k hlost)
  · exact .inr (.inl (lock.beyond.wrap _ k hlost))
  · exact .of (lock.wrap hk (hmark hpq) hnext)

/-- A bracket where the parsers were before is closed. -/
theorem closeFrom (hmark : ∀ {p q}, R₀ p q → M p.mark q.mark) (h : InStep Lost R₀ R f g) (k : ScriptKind) :
    InStep Lost R₀ R (fun p => (f p).closeAt p.mark k) (fun q => (g q).closeAt q.mark k) := by
  refine ⟨fun hp => lock.beyond.closeAt _ k (h.left hp), fun hq => lock.beyond.closeAt _ k (h.right hq),
    fun hpq => ?_⟩
  rcases h.keeps hpq with hlost | hlost | hnext
  · exact .inl (lock.beyond.closeAt _ k hlost)
  · exact .inr (.inl (lock.beyond.closeAt _ k hlost))
  · exact .of (lock.closeAt k (hmark hpq) hnext)

/-- The branch around a primary expression starts where the parsers were before. -/
theorem frameFrom (frame : Framing R₀ R R' M) (h : InStep Lost R₀ R f g) (hk : k ∈ primaryKinds) :
    InStep Lost R₀ R' (fun p => (f p).wrap p.mark k) (fun q => (g q).wrap q.mark k) := by
  refine ⟨fun hp => lock.beyond.wrap _ k (h.left hp), fun hq => lock.beyond.wrap _ k (h.right hq),
    fun hpq => ?_⟩
  rcases h.keeps hpq with hlost | hlost | hnext
  · exact .inl (lock.beyond.wrap _ k hlost)
  · exact .inr (.inl (lock.beyond.wrap _ k hlost))
  · exact .of (frame.frame hk hpq hnext)

theorem loop (hstep : BothInStep Lost R R step step') : InStep Lost R R (·.loop step) (·.loop step') := by
  refine ⟨(hstep.repeatStep _).left, (hstep.repeatStep _).right, fun {p q} h => ?_⟩
  unfold Parser.loop
  rw [(lock.ahead h).budget]
  exact (hstep.repeatStep _).keeps h

/-- Something may be repeated up to a token. -/
theorem loopUntil (stops : List ScriptKind) (h : InStep Lost R R f g) :
    InStep Lost R R (·.loopUntil stops f) (·.loopUntil stops g) :=
  lock.loop (.ite (lock.isAtAny stops) (.answer (.stay fun h => h) false) (.answer h true))

/-- Tokens may be taken up to the last. -/
theorem eatAll (fuel : Nat) : InStep Lost R R (Parser.eatAll fuel) (Parser.eatAll fuel) := by
  induction fuel with
  | zero => exact .stay fun h => h
  | succ fuel ih => exact .ite (lock.isAt .endOfTokens) (.stay fun h => h) (lock.next.andThen ih)

/-- All tokens that are left may be taken. -/
theorem eatRest : InStep Lost R R (fun p => p.eatAll p.budget) (fun q => q.eatAll q.budget) := by
  refine ⟨fun hp => (lock.eatAll _).left hp, fun hq => (lock.eatAll _).right hq, fun {p q} h => ?_⟩
  rw [(lock.ahead h).budget]
  exact (lock.eatAll _).keeps h

/-- A comma is required except before the bracket that ends a list. -/
theorem separate (close : ScriptKind) :
    InStep Lost R R (fun p => if p.isAt close then p else p.require .comma)
      (fun q => if q.isAt close then q else q.require .comma) :=
  .ite (lock.isAt close) (.stay fun h => h) (lock.require .comma)

end Lockstep

/-- Marks may be kept in mind while goals are read. -/
theorem ReadersInStep.marked (hread : ReadersInStep Lost R read read') (M : Nat → Nat → Prop) (m n : Nat) :
    ReadersInStep Lost (Marked M m n R) read read' :=
  ⟨hread.left, hread.right, fun goal {_ _} h hgoal =>
    (hread.keeps goal h.2 hgoal).map fun hnext => ⟨h.1, hnext⟩⟩

/-- A goal other than an object may be read anywhere. -/
theorem ReadersInStep.goal (hread : ReadersInStep Lost R read read') (goal : Goal)
    (hgoal : goal ≠ .object) :
    InStep Lost R R (read goal) (read' goal) :=
  ⟨hread.left goal, hread.right goal, fun h => hread.keeps goal h fun heq => absurd heq hgoal⟩

/-- An object may be read where one starts. -/
theorem ReadersInStep.object (hread : ReadersInStep Lost R read read') :
    InStep Lost (fun p q => R p q ∧ p.isAt .leftBrace = true) R (read .object) (read' .object) :=
  ⟨hread.left _, hread.right _, fun h => hread.keeps _ h.1 fun _ => h.2⟩

/-- Marks may be kept in mind while a first token is taken. -/
theorem Opening.marked (first : Opening R₀ R M) (m n : Nat) :
    Opening (Marked M m n R₀) (Marked M m n R) M where
  mark h := first.mark h.2
  eat h := ⟨h.1, first.eat h.2⟩
  eatKnown k h := ⟨h.1, first.eatKnown k h.2⟩

/-- Related parsers that have a token left. -/
def Here (R : Parser → Parser → Prop) (p q : Parser) : Prop :=
  R p q ∧ p.atEnd = false

theorem Parser.atEnd_of_isAt (hk : k ≠ .endOfTokens) (h : p.isAt k = true) : p.atEnd = false := by
  unfold Parser.atEnd Parser.isAt at *
  rw [beq_iff_eq.mp h]
  exact beq_eq_false_iff_ne.mpr fun heq => hk (Kind.script.inj heq)

theorem Opening.weaken {R₁ : Parser → Parser → Prop} (first : Opening R₀ R M)
    (himp : ∀ {p q}, R₁ p q → R₀ p q) : Opening R₁ R M :=
  ⟨fun h => first.mark (himp h), fun h => first.eat (himp h), fun k h => first.eatKnown k (himp h)⟩

/-- A token of a kind is left to be taken. -/
theorem Opening.at (first : Opening (Here R₀) R M) (hk : k ≠ .endOfTokens) :
    Opening (fun p q => R₀ p q ∧ p.isAt k = true) R M :=
  first.weaken fun h => ⟨h.1, Parser.atEnd_of_isAt hk h.2⟩

theorem Opening.next (first : Opening R₀ R M) (beyond : Beyond Lost) :
    InStep Lost R₀ R Parser.eat Parser.eat :=
  .of beyond.eat beyond.eat first.eat

theorem Opening.known (first : Opening R₀ R M) (beyond : Beyond Lost) (k : ScriptKind) :
    InStep Lost R₀ R (·.eatKnown k) (·.eatKnown k) :=
  .of (fun h => beyond.eat (beyond.check _ h)) (fun h => beyond.eat (beyond.check _ h)) (first.eatKnown k)

end ComponentMarkup.Script
