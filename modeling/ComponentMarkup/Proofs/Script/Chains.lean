import ComponentMarkup.Script.Grammar

/-!
# Chains of increments

An expression is read by a loop that wraps what it has read so far, once for every operation behind it.  The loop
enters no level of nesting, so the number of operations is not limited: a word with `n` increments behind it becomes a
tree of height `n + 1`.

* `Chain` — a word with increments around it;
* `Ahead` — a parser that has read some nodes and stands before a number of increments;
* `Ahead.loop` — the loop wraps all of them;
* `readNamed_chain` — a script of a word and increments has a chain in it, and nesting does not get too deep.
-/

namespace ComponentMarkup.Script

open ComponentMarkup.Text ComponentMarkup.Tree

/-- A word with a number of increments around it. -/
inductive Chain : Nat → Node → Prop
  | word (text : String) (span : Span) : Chain 0 (.leaf (.script .ident) text span)
  | step {n : Nat} {inner : Node} (text : String) (span : Span) (h : Chain n inner) :
      Chain (n + 1) (.branch (.script .postfixExpr) [inner, .leaf (.script .step) text span])

theorem Chain.height {n : Nat} {node : Node} (h : Chain n node) : node.height = n + 1 := by
  induction h with
  | word text span => rfl
  | @step n inner text span _ ih =>
      have hleaf : Node.heightOf [.leaf (.script .step) text span] = 1 := rfl
      rw [Node.branch, Node.spanning, Node.height, Node.heightOf, ih, hleaf]
      omega

/-! ## Tokens -/

theorem lexeme_letter (before cs : List Char) : lexeme before 'a' ('+' :: cs) = ⟨.ok .ident, 1⟩ := by
  have hplus : isWordPart '+' = false := by decide
  have hword : reservedWord? (String.ofList ['a']) = none := by decide
  have hlexeme : lexeme before 'a' ('+' :: cs) = wordLexeme before 'a' ('+' :: cs) := rfl
  rw [hlexeme, wordLexeme, List.takeWhile_cons_of_neg (by rw [hplus]; exact Bool.false_ne_true), hword]
  split <;> rfl

/-- The parser stands at a word in front of an increment. -/
theorem readCurrent_word (before cs : List Char) (place : Nat) (nodes : Array Node) :
    readCurrent ⟨before, place, 'a' :: '+' :: cs⟩ nodes =
      (⟨.leaf (.script .ident) "a" ⟨place, place + 1⟩, .script .ident, 0, false, place⟩,
        ⟨'a' :: before, place + 1, '+' :: cs⟩, nodes) := by
  have hnext : (Lexer.mk before place ('a' :: '+' :: cs)).next =
      (.leaf (.script .ident) "a" ⟨place, place + 1⟩, ⟨'a' :: before, place + 1, '+' :: cs⟩) := by
    simp only [Lexer.next, lexeme_letter]
    rfl
  rw [readCurrent, readTrivia]
  simp only [hnext]
  rfl

/-! ## Standing before increments -/

/-- A number of increments. -/
def increments (n : Nat) : List Char :=
  (List.replicate n ['+', '+']).flatten

/-- A parser that has read some nodes, without getting too deep, and stands before a number of increments. -/
structure Ahead (p : Parser) (ns : List Node) (n : Nat) : Prop where
  nodes : p.nodes = ns.toArray
  overflow : p.overflow = none
  trivia : p.current.trivia = 0
  newline : p.current.newline = false
  next : match n with
    | 0 => p.current.kind = .script .endOfTokens
    | m + 1 => p.current.kind = .script .step ∧ (∃ text span, p.current.node = .leaf (.script .step) text span) ∧
        p.lexer.rest = increments m

variable {p : Parser} {ns : List Node} {n : Nat}

namespace Ahead

/-- The parser that has just taken a token in front of increments. -/
theorem eatAs {node : Node} (hnodes : p.nodes = ns.toArray) (hoverflow : p.overflow = none)
    (hrest : p.lexer.rest = increments n) : Ahead (p.eatAs node) (ns ++ [node]) n := by
  have hpush : p.nodes.push node = (ns ++ [node]).toArray := by rw [hnodes, List.push_toArray]
  rcases hlexer : p.lexer with ⟨before, place, rest⟩
  rw [hlexer] at hrest
  obtain rfl : rest = increments n := hrest
  cases n with
  | zero => refine ⟨?_, hoverflow, ?_, ?_, ?_⟩ <;> simp only [Parser.eatAs, hlexer, hpush] <;> rfl
  | succ n =>
      refine ⟨?_, hoverflow, ?_, ?_, ?_, ⟨"++", ⟨place, place + 2⟩, ?_⟩, ?_⟩ <;>
        simp only [Parser.eatAs, hlexer, hpush] <;> rfl

/-- The nodes before increments, wrapped. -/
theorem wrap (h : Ahead p ns n) (hns : ns ≠ []) (kind : ScriptKind) :
    Ahead (p.wrap 0 kind) [.branch (.script kind) ns] n := by
  refine ⟨?_, h.overflow, h.trivia, h.newline, h.next⟩
  have hstop : p.markBeforeTrivia = ns.length := by
    rw [Parser.markBeforeTrivia, h.trivia, h.nodes]
    rfl
  have hbranch : Node.branchAt (.script kind) (p.placeAt 0) ns = .branch (.script kind) ns :=
    if_neg (by rwa [List.isEmpty_iff])
  simp [Parser.wrap, hstop, h.nodes, hbranch, Parser.check]

/-- One step of the loop wraps the next increment. -/
theorem continuation (h : Ahead p ns (n + 1)) (read : Reader) (power : Nat) :
    ∃ q text span, readContinuation read 0 power p = (q, true) ∧
      Ahead q [.branch (.script .postfixExpr) (ns ++ [.leaf (.script .step) text span])] n := by
  obtain ⟨hkind, ⟨text, span, hnode⟩, hrest⟩ := h.next
  have hcontinuation : readContinuation read 0 power p = (p.eat.wrap 0 .postfixExpr, true) := by
    simp [readContinuation, readSuffix, Parser.isAt, hkind, Parser.newline, h.newline]
  have heaten : Ahead p.eat (ns ++ [.leaf (.script .step) text span]) n :=
    hnode ▸ Ahead.eatAs h.nodes h.overflow hrest
  exact ⟨_, text, span, hcontinuation, heaten.wrap (by simp) .postfixExpr⟩

/-- Behind the last increment the loop stops. -/
theorem continuation_end (h : Ahead p ns 0) (read : Reader) (power : Nat) :
    readContinuation read 0 power p = (p, false) := by
  have hkind : p.current.kind = .script .endOfTokens := h.next
  simp [readContinuation, readSuffix, readOperator, Parser.isAt, Parser.kind?, hkind, Parser.newline, h.newline,
    Kind.script?, binaryPower?]

/-- **The loop wraps all increments**, by induction on their number. -/
theorem loop {inner : Node} {m fuel : Nat} (h : Ahead p [inner] n) (hchain : Chain m inner) (hfuel : n < fuel)
    (read : Reader) (power : Nat) :
    ∃ outer, Chain (m + n) outer ∧ Ahead (Parser.repeatStep (readContinuation read 0 power) fuel p) [outer] 0 := by
  induction n generalizing p inner m fuel with
  | zero =>
      obtain ⟨fuel, rfl⟩ := Nat.exists_eq_succ_of_ne_zero (Nat.ne_of_gt hfuel)
      rw [Parser.repeatStep, h.continuation_end]
      exact ⟨inner, hchain, h⟩
  | succ n ih =>
      obtain ⟨fuel, rfl⟩ := Nat.exists_eq_succ_of_ne_zero (Nat.ne_of_gt (Nat.zero_lt_of_lt hfuel))
      obtain ⟨q, text, span, hstep, hq⟩ := h.continuation read power
      rw [Parser.repeatStep, hstep]
      obtain ⟨outer, houter, hend⟩ := ih hq (.step text span hchain) (Nat.lt_of_succ_lt_succ hfuel)
      exact ⟨outer, by rwa [Nat.add_right_comm] at houter, hend⟩

/-- The loop may take more steps than there are increments. -/
theorem lt_budget (h : Ahead p ns n) : n < p.budget := by
  cases n with
  | zero => exact Nat.succ_pos _
  | succ n =>
      rw [Parser.budget, h.next.2.2]
      simp [increments]
      omega

/-- Leaving a level of nesting changes nothing of this. -/
theorem leave (h : Ahead p ns n) : Ahead p.leave ns n :=
  ⟨h.nodes, h.overflow, h.trivia, h.newline, h.next⟩

/-- Behind the last increment a statement ends. -/
theorem endStatement (h : Ahead p ns 0) : endStatement p = p := by
  have hkind : p.current.kind = .script .endOfTokens := h.next
  simp [Script.endStatement, Parser.eatIf, Parser.isAt, Parser.isAtAny, Parser.kind?, hkind, Parser.newline, h.newline,
    Kind.script?, statementEnd]

end Ahead

/-! ## A script of increments -/

/-- A parser at the start of a script of a word and increments. -/
structure AtWord (p : Parser) (n : Nat) : Prop where
  nodes : p.nodes = #[]
  overflow : p.overflow = none
  kind : p.current.kind = .script .ident
  node : ∃ text span, p.current.node = .leaf (.script .ident) text span
  rest : p.lexer.rest = increments n

namespace AtWord

theorem ofSpan {src : Source} {s : Span} (h : src.slice s.start s.stop = 'a' :: increments (n + 1)) :
    AtWord (Parser.ofSpan src s) (n + 1) := by
  have hread : readCurrent (.ofSpan src s) #[] = readCurrent ⟨(src.slice 0 s.start).reverse, s.start,
      'a' :: '+' :: '+' :: increments n⟩ #[] := by
    rw [Lexer.ofSpan, h]
    rfl
  rw [readCurrent_word] at hread
  constructor <;> simp only [Parser.ofSpan, hread]
  · exact ⟨_, _, rfl⟩
  · rfl

/-- The word is read as an operand. -/
theorem operand (h : AtWord p n) (fuel : Nat) :
    ∃ inner, Chain 0 inner ∧ Ahead (readOperand (readGoal (fuel + 1)) p) [inner] n := by
  obtain ⟨text, span, hnode⟩ := h.node
  have heaten : Ahead p.eat [.leaf (.script .ident) text span] n :=
    hnode ▸ Ahead.eatAs h.nodes h.overflow h.rest
  have harrow : isAtArrow p.eat = false := by
    cases n with
    | zero => simp [isAtArrow, Parser.isAt, show p.eat.current.kind = _ from heaten.next]
    | succ n => simp [isAtArrow, Parser.isAt, heaten.next.1]
  have hprimary : readOperand (readGoal (fuel + 1)) p = p.eat := by
    simp [readOperand, Parser.isAtAny, Parser.kind?, h.kind, Kind.script?, unaryOperator, readGoal, readPrimary,
      readName, harrow]
  rw [hprimary]
  exact ⟨_, .word text span, heaten⟩

theorem enter (h : AtWord p n) (hdepth : p.depth < maxDepth) :
    ∃ q, p.enter = (q, true) ∧ q.depth = p.depth + 1 ∧ AtWord q n :=
  ⟨{ p with depth := p.depth + 1 }, if_neg (Nat.not_le_of_lt hdepth), rfl, h.nodes, h.overflow, h.kind, h.node, h.rest⟩

/-- An expression of a word and increments is a chain. -/
theorem expression (h : AtWord p n) (hdepth : p.depth < maxDepth) (fuel power : Nat) :
    ∃ outer, Chain n outer ∧ Ahead (readGoal (fuel + 2) (.expression power) p) [outer] 0 := by
  obtain ⟨q, henter, -, hq⟩ := h.enter hdepth
  obtain ⟨inner, hinner, hoperand⟩ := hq.operand fuel
  have hmark : q.mark = 0 := by rw [Parser.mark, hq.nodes]; rfl
  have hread : readGoal (fuel + 2) (.expression power) p =
      ((readOperand (readGoal (fuel + 1)) q).loop (readContinuation (readGoal (fuel + 1)) 0 power)).leave := by
    rw [readGoal, readOperation, henter]
    simp only [if_true, hmark]
  obtain ⟨outer, houter, hloop⟩ := hoperand.loop hinner hoperand.lt_budget (readGoal (fuel + 1)) power
  rw [hread]
  exact ⟨outer, Nat.zero_add n ▸ houter, hloop.leave⟩

/-- **A statement of a word and increments is a chain.** -/
theorem statement (h : AtWord p n) (hdepth : p.depth = 0) (fuel : Nat) :
    ∃ outer, Chain n outer ∧ Ahead (readGoal (fuel + 3) .statement p) [.branch (.script .exprStmt) [outer]] 0 := by
  obtain ⟨q, henter, hq, hword⟩ := h.enter (by rw [hdepth]; decide)
  obtain ⟨outer, houter, hexpression⟩ := hword.expression (by rw [hq, hdepth]; decide) fuel assignPower
  have hmark : q.mark = 0 := by rw [Parser.mark, hword.nodes]; rfl
  have hread : readGoal (fuel + 3) .statement p =
      ((endStatement (readGoal (fuel + 2) (.expression assignPower) q)).wrap 0 .exprStmt).leave := by
    rw [readGoal, readStatement, henter]
    simp only [if_true, readStatementHere, Parser.kind?, hword.kind, Kind.script?, readExpressionStatement,
      readExpression, hmark]
  rw [hread, hexpression.endStatement]
  exact ⟨outer, houter, (hexpression.wrap (List.cons_ne_nil _ _) .exprStmt).leave⟩

end AtWord

/-- **A script of a word and increments has a chain in it**, and nesting does not get too deep. -/
theorem readNamed_chain {src : Source} {s : Span} (h : src.slice s.start s.stop = 'a' :: increments (n + 1)) :
    ∃ outer, Chain (n + 1) outer ∧ readNamed src s "statements" =
      ⟨.branch (.script .statements) [.branch (.script .exprStmt) [outer]], none⟩ := by
  obtain ⟨p, hp⟩ : ∃ p, p = Parser.ofSpan src s := ⟨_, rfl⟩
  have hword : AtWord p (n + 1) := hp ▸ AtWord.ofSpan h
  have hdepth : p.depth = 0 := by rw [hp]; rfl
  obtain ⟨fuel, hfuel⟩ : ∃ fuel, goalFuel p = fuel + 3 :=
    ⟨3 * (maxDepth + p.lexer.rest.length + 1), by rw [goalFuel, Parser.budget]; omega⟩
  obtain ⟨outer, houter, hend⟩ := hword.statement hdepth fuel
  refine ⟨outer, houter, ?_⟩
  have hkind : (readGoal (fuel + 3) .statement p).current.kind = .script .endOfTokens := hend.next
  have hscript : readScript p = readGoal (fuel + 3) .statement p := by
    have hfirst : p.isAtAny [.endOfTokens] = false := by
      simp [Parser.isAtAny, Parser.kind?, hword.kind, Kind.script?]
    have hstatement : readStatementOrFault (readGoal (fuel + 3)) p = readGoal (fuel + 3) .statement p := by
      simp [readStatementOrFault, Parser.isAtAny, Parser.kind?, hword.kind, Kind.script?, anyStatementStart,
        statementStart, expressionStart]
    have hlast : (readGoal (fuel + 3) .statement p).isAtAny [.endOfTokens] = true := by
      simp [Parser.isAtAny, Parser.kind?, hkind, Kind.script?]
    rw [readScript, hfuel, Parser.loopUntil, Parser.loop, Parser.budget, Parser.repeatStep, hfirst]
    simp only [Bool.false_eq_true, if_false, hstatement]
    rw [Parser.repeatStep, hlast]
    rfl
  have hall : Parser.eatAll (readScript p).budget (readScript p) = readScript p := by
    rw [Parser.budget, Parser.eatAll, hscript]
    simp [Parser.atEnd, Parser.isAt, hkind]
  have hread : readNamed src s "statements" = (readScript p).finish .statements := by
    rw [hp] at hall ⊢
    exact congrArg (fun q : Parser => q.finish .statements) hall
  rw [hread, hscript, Parser.finish, hend.nodes, hend.overflow]
  rfl

end ComponentMarkup.Script
