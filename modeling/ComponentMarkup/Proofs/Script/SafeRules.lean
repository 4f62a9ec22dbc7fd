import ComponentMarkup.Proofs.Script.BracketRules
import ComponentMarkup.Proofs.Script.SafeSteps

/-!
# Rules that rely on nothing in vain

Every rule of the script grammar takes only steps that find what they rely on, whatever tokens it meets.  A rule that
takes a token for granted is only tried where this token stands: the rule before it has looked at the token, or at the
one behind it.  Only the rule for groups in parentheses goes back.  It reads the elements of its group behind the
opening parenthesis, which is never taken away, so the nodes in front of the group are the same when it goes back.

* `Trusty` — a reader that takes such steps; the lemma about a rule is named for it and says what the rule does if its
  reader does;
* `readGoal_trusty` — every goal is read so, with any amount of fuel;
* `readElements_kept` — reading the elements of a group leaves the nodes in front of it alone;
* `parser_safe` — the steps of the parser find what they rely on, from any entry point.
-/

namespace ComponentMarkup.Script

open ComponentMarkup.Text ComponentMarkup.Tree

variable {src : Source} {s : Span} {p : Parser} {k : ScriptKind} {mark : Nat} {read : Reader}

/-- A reader whose steps find what they rely on.  An object is only read where its brace stands. -/
structure Trusty (src : Source) (s : Span) (read : Reader) : Prop where
  careful : Careful src s read
  statement : ∀ {p : Parser}, Reached src s p → Reached src s (read .statement p)
  expression : ∀ {p : Parser} (power : Nat), Reached src s p → Reached src s (read (.expression power) p)
  primary : ∀ {p : Parser}, Reached src s p → Reached src s (read .primary p)
  object : ∀ {p : Parser}, Reached src s p → p.isAt .leftBrace = true → Reached src s (read .object p)

/-- A step that finds what it relies on may be repeated. -/
theorem Reached.loop (h : Reached src s p) {step : Parser → Parser × Bool}
    (hstep : ∀ {q : Parser}, Reached src s q → Reached src s (step q).1) : Reached src s (p.loop step) :=
  Parser.loop_keeps (I := Reached src s) hstep h

theorem Reached.loopUntil (h : Reached src s p) {step : Parser → Parser}
    (hstep : ∀ {q : Parser}, Reached src s q → Reached src s (step q)) (stops : List ScriptKind) :
    Reached src s (p.loopUntil stops step) :=
  Parser.loopUntil_keeps (I := Reached src s) hstep stops h

/-! ## Lists in brackets -/

section Rules

variable (hread : Trusty src s read)

include hread

theorem readExpression_reached (h : Reached src s p) : Reached src s (readExpression read p) :=
  hread.expression _ h

theorem readSpread_reached (h : Reached src s p) (hat : p.isAt .dots = true) : Reached src s (readSpread read p) :=
  (readExpression_reached hread (h.eatKnown hat)).wrap _ .spread

theorem readElement_reached (close : ScriptKind) (h : Reached src s p) :
    Reached src s (readElement read close p) := by
  have hone : Reached src s (if p.isAt .dots then readSpread read p else readExpression read p) := by
    split
    · exact readSpread_reached hread h ‹_›
    · exact readExpression_reached hread h
  unfold readElement
  split
  · exact hone.separate close
  · exact h.unexpected

theorem readElements_reached (h : Reached src s p) (hat : p.isAt .leftParen = true) :
    Reached src s (readElements read p) := by
  have hlist := (h.eatKnown hat).loopUntil (readElement_reached hread .rightParen) [.rightParen, .endOfTokens]
  exact hlist.closeAt _ .rightParen

theorem readArguments_reached (h : Reached src s p) (hat : p.isAt .leftParen = true) :
    Reached src s (readArguments read p) :=
  (readElements_reached hread h hat).wrap _ .args

theorem readArray_reached (h : Reached src s p) (hat : p.isAt .leftBracket = true) :
    Reached src s (readArray read p) := by
  have hstep : ∀ {q : Parser}, Reached src s q →
      Reached src s (if q.isAt .comma then q.eat else readElement read .rightBracket q) := by
    intro q hq
    split
    · exact hq.eat
    · exact readElement_reached hread .rightBracket hq
  have hlist := (h.eatKnown hat).loopUntil hstep [.rightBracket, .endOfTokens]
  exact (hlist.closeAt _ .rightBracket).wrap _ .array

theorem readIndex_reached (h : Reached src s p) (hat : p.isAt .leftBracket = true) :
    Reached src s (readIndex read p) :=
  (readExpression_reached hread (h.eatKnown hat)).closeAt _ .rightBracket

/-! ## Blocks, functions and objects -/

theorem readStatementOrFault_reached (h : Reached src s p) : Reached src s (readStatementOrFault read p) := by
  unfold readStatementOrFault
  split
  · exact hread.statement h
  · exact h.unexpected

theorem readBlock_reached (h : Reached src s p) : Reached src s (readBlock read p) := by
  have hopen := h.expect .leftBrace
  have hlist := hopen.loopUntil (readStatementOrFault_reached hread) statementEnd
  unfold readBlock
  dsimp only
  split
  · exact hopen
  · exact (hlist.closeAt _ .rightBrace).wrap _ .block

theorem readBinding_reached (h : Reached src s p) : Reached src s (readBinding read p) := by
  unfold readBinding
  split
  · exact readArray_reached hread h ‹_›
  split
  · exact hread.object h ‹_›
  · exact h.require .ident

/-- The value that may be assigned to what was just read. -/
theorem readAssigned_reached (h : Reached src s p) :
    Reached src s (if p.isAt .assign then readExpression read p.eat else p) := by
  split
  · exact readExpression_reached hread h.eat
  · exact h

theorem readParameter_reached (h : Reached src s p) : Reached src s (readParameter read p) := by
  have hdots := h.eatIf .dots
  have hbinding := readBinding_reached hread hdots
  unfold readParameter
  dsimp only
  split
  · exact hdots.unexpected
  · apply Reached.separate
    split
    · exact hbinding.wrap _ .spread
    split
    · exact (readExpression_reached hread hbinding.eat).wrap _ .assignment
    · exact hbinding

theorem readParameters_reached (h : Reached src s p) : Reached src s (readParameters read p) := by
  have hopen := h.expect .leftParen
  have hlist := hopen.loopUntil (readParameter_reached hread) [.rightParen, .endOfTokens]
  unfold readParameters
  dsimp only
  split
  · exact hopen
  · exact (hlist.closeAt _ .rightParen).wrap _ .params

theorem readFunctionRest_reached (h : Reached src s p) : Reached src s (readFunctionRest read p) :=
  readBlock_reached hread (readParameters_reached hread h)

theorem readArrowBody_reached (h : Reached src s p) : Reached src s (readArrowBody read p) := by
  unfold readArrowBody
  split
  · exact readBlock_reached hread h
  · exact readExpression_reached hread h

theorem readKey_reached (h : Reached src s p) : Reached src s (readKey read p) := by
  unfold readKey
  split
  · exact readIndex_reached hread h ‹_›
  split
  · exact h.eatWithKind .ident (h.not_fault_any ‹_›)
  · exact h.eat

theorem readValue_reached (shorthand : Bool) (h : Reached src s p) : Reached src s (readValue read shorthand p) := by
  unfold readValue
  split
  · dsimp only
    split
    · exact readExpression_reached hread h.eat
    · exact h.eat.expected _
  split
  · exact readFunctionRest_reached hread h
  split
  · exact h.expected _
  · exact readAssigned_reached hread h

theorem readProperty_reached (h : Reached src s p) : Reached src s (readProperty read p) := by
  unfold readProperty
  split
  · exact readSpread_reached hread h ‹_›
  · exact (readValue_reached hread _ (readKey_reached hread h)).wrap _ .property

theorem readListedProperty_reached (close : ScriptKind) (h : Reached src s p) :
    Reached src s (readListedProperty read close p) := by
  unfold readListedProperty
  split
  · exact h.unexpected
  · exact (readProperty_reached hread h).separate close

theorem readObject_reached (h : Reached src s p) (hat : p.isAt .leftBrace = true) :
    Reached src s (readObject read p) := by
  have hlist := (h.eatKnown hat).loopUntil (readListedProperty_reached hread .rightBrace) [.rightBrace, .endOfTokens]
  exact (hlist.closeAt _ .rightBrace).wrap _ .object

/-! ## Statements -/

omit hread in
theorem endStatement_reached (h : Reached src s p) : Reached src s (endStatement p) := by
  have hsemicolon := h.eatIf .semicolon
  unfold endStatement
  dsimp only
  split
  · exact hsemicolon
  · exact hsemicolon.expected _

theorem readDeclarator_reached (h : Reached src s p) : Reached src s (readDeclarator read p).1 :=
  (readAssigned_reached hread (readBinding_reached hread h)).eatIf .comma

theorem readDeclaration_reached (h : Reached src s p) : Reached src s (readDeclaration read p) :=
  (endStatement_reached (h.eat.loop (readDeclarator_reached hread))).wrap _ .varDecl

theorem readFunction_reached (h : Reached src s p) (hat : p.isAt .functionWord = true) (mark : Nat) :
    Reached src s (readFunction read mark p) := by
  have hname := ((h.eatKnown hat).skip .star).require .ident
  exact (readFunctionRest_reached hread hname).wrap mark .funcDecl

/-- A function behind the word that makes it asynchronous: its own word was seen ahead. -/
theorem readFunction_ahead (h : Reached src s p) (hnext : p.nextIs .functionWord = true) (mark : Nat) :
    Reached src s (readFunction read mark p.eat) :=
  readFunction_reached hread h.eat (Parser.isAt_eat hnext) mark

theorem readCondition_reached (h : Reached src s p) : Reached src s (readCondition read p) := by
  have hopen := h.expect .leftParen
  unfold readCondition
  dsimp only
  split
  · exact (readExpression_reached hread hopen).closeAt _ .rightParen
  · exact hopen

theorem readBody_reached (h : Reached src s p) : Reached src s (readBody read p) := by
  unfold readBody
  split
  · exact hread.statement h
  · exact h.expected _

theorem readIf_reached (h : Reached src s p) (hat : p.isAt .ifWord = true) : Reached src s (readIf read p) := by
  have hbody := readBody_reached hread (readCondition_reached hread (h.eatKnown hat))
  have helse := hbody.eatIf .elseWord
  unfold readIf
  dsimp only
  apply Reached.wrap
  split
  · exact readBody_reached hread helse
  · exact helse

theorem readClause_reached (h : Reached src s p) : Reached src s (readClause read p) := by
  have hsemicolon := h.require .semicolon
  unfold readClause
  dsimp only
  split
  · exact hsemicolon
  · exact readExpression_reached hread hsemicolon

theorem readLoopStart_reached (h : Reached src s p) : Reached src s (readLoopStart read p) := by
  unfold readLoopStart
  split
  · exact readAssigned_reached hread (readBinding_reached hread h.eat)
  split
  · exact h
  · exact readExpression_reached hread h

theorem readFor_reached (h : Reached src s p) (hat : p.isAt .forWord = true) : Reached src s (readFor read p) := by
  have hword := (h.eatKnown hat).skip .awaitWord
  have hstart := readLoopStart_reached hread (hword.require .leftParen)
  unfold readFor
  dsimp only
  apply Reached.wrap
  apply readBody_reached hread
  apply Reached.closeAt
  split
  · exact readExpression_reached hread hstart.eat
  · exact readClause_reached hread (readClause_reached hread hstart)

theorem readWhile_reached (h : Reached src s p) : Reached src s (readWhile read p) :=
  (readBody_reached hread (readCondition_reached hread h.eat)).wrap _ .whileStmt

theorem readReturn_reached (h : Reached src s p) : Reached src s (readReturn read p) := by
  unfold readReturn
  dsimp only
  apply Reached.wrap
  apply endStatement_reached
  split
  · exact readExpression_reached hread h.eat
  · exact h.eat

omit hread in
theorem readJump_reached (h : Reached src s p) : Reached src s (readJump p) := by
  unfold readJump
  dsimp only
  apply Reached.wrap
  apply endStatement_reached
  split
  · exact h.eat.eat
  · exact h.eat

theorem readExpressionStatement_reached (h : Reached src s p) : Reached src s (readExpressionStatement read p) :=
  (endStatement_reached (readExpression_reached hread h)).wrap _ .exprStmt

/-! ## Imports and exports -/

omit hread in
theorem readSpecifier_reached (h : Reached src s p) : Reached src s (readSpecifier p) := by
  unfold readSpecifier
  dsimp only
  split
  · exact h.unexpected
  · rename_i hname
    have hfault : p.current.node.isFault = false := by
      rw [Bool.not_eq_true, Bool.not_eq_false', Bool.or_eq_true] at hname
      rcases hname with hident | hword
      · exact h.not_fault hident
      · exact h.not_fault_any hword
    have hnamed := (h.eatWithKind .ident hfault).eatIf .asWord
    apply Reached.separate
    split
    · exact hnamed
    split
    · exact hnamed.eatWithKind .ident (hnamed.not_fault_any ‹_›)
    · exact hnamed.require .ident

omit hread in
theorem readSpecifiers_reached (h : Reached src s p) (hat : p.isAt .leftBrace = true) :
    Reached src s (readSpecifiers p) :=
  ((h.eatKnown hat).loopUntil readSpecifier_reached statementEnd).closeAt _ .rightBrace

omit hread in
theorem readImportClause_reached (h : Reached src s p) : Reached src s (readImportClause p).1 := by
  unfold readImportClause
  split
  · exact h.eat.eatIf .comma
  split
  · exact ((h.eat.require .asWord).require .ident).eatIf .comma
  split
  · exact (readSpecifiers_reached h ‹_›).eatIf .comma
  · exact h.expected _

omit hread in
theorem readImport_reached (h : Reached src s p) (hat : p.isAt .importWord = true) : Reached src s (readImport p) := by
  have hbare := (h.eatKnown hat).eatIf .str
  have hclauses := hbare.loop readImportClause_reached
  unfold readImport
  dsimp only
  apply Reached.wrap
  apply endStatement_reached
  split
  · exact hbare
  · exact (hclauses.require .fromWord).require .str

omit hread in
theorem readExportList_reached (h : Reached src s p) (hat : p.isAtAny [.leftBrace, .star] = true) :
    Reached src s (readExportList p) := by
  have hnames : Reached src s (if p.isAt .star then
      if (p.eat.eatIf .asWord).2 then (p.eat.eatIf .asWord).1.require .ident else (p.eat.eatIf .asWord).1
      else readSpecifiers p) := by
    split
    · have hstar := h.eat.eatIf .asWord
      split
      · exact hstar.require .ident
      · exact hstar
    · rename_i hstar
      obtain ⟨k, hk, hkind⟩ := isAtAny_kind hat
      have hat := Parser.isAt_of_kind? hkind
      obtain rfl : k = .leftBrace := by
        rcases List.mem_cons.mp hk with rfl | hk
        · rfl
        · exact absurd (List.mem_singleton.mp hk ▸ hat) hstar
      exact readSpecifiers_reached h hat
  have hrest : ∀ {q : Parser}, Reached src s q → Reached src s
      (endStatement (if (q.eatIf .fromWord).2 then (q.eatIf .fromWord).1.require .str else (q.eatIf .fromWord).1)) := by
    intro q hq
    have hfrom := hq.eatIf .fromWord
    apply endStatement_reached
    split
    · exact hfrom.require .str
    · exact hfrom
  exact hrest hnames

theorem readExport_reached (h : Reached src s p) (hat : p.isAt .exportWord = true) :
    Reached src s (readExport read p) := by
  have hword := h.eatKnown hat
  unfold readExport
  dsimp only
  apply Reached.wrap
  split
  · exact endStatement_reached (readExpression_reached hread hword.eat)
  split
  · exact readDeclaration_reached hread hword
  split
  · exact readFunction_reached hread hword ‹_› _
  split
  · rename_i hasync
    exact readFunction_ahead hread hword (Bool.and_eq_true_iff.mp hasync).2 _
  split
  · exact readExportList_reached hword ‹_›
  · exact hword.expected _

theorem readStatementHere_reached (h : Reached src s p) : Reached src s (readStatementHere read p) := by
  unfold readStatementHere
  split
  · exact readDeclaration_reached hread h
  · exact readDeclaration_reached hread h
  · exact readDeclaration_reached hread h
  · exact readFunction_reached hread h (Parser.isAt_of_kind? ‹_›) _
  · split
    · exact readFunction_ahead hread h ‹_› _
    · exact readExpressionStatement_reached hread h
  · exact readReturn_reached hread h
  · exact readIf_reached hread h (Parser.isAt_of_kind? ‹_›)
  · exact readFor_reached hread h (Parser.isAt_of_kind? ‹_›)
  · exact readWhile_reached hread h
  · exact readJump_reached h
  · exact readJump_reached h
  · exact readImport_reached h (Parser.isAt_of_kind? ‹_›)
  · exact readExport_reached hread h (Parser.isAt_of_kind? ‹_›)
  · exact readBlock_reached hread h
  · exact h.eat
  · exact readExpressionStatement_reached hread h

theorem readStatement_reached (h : Reached src s p) : Reached src s (readStatement read p) := by
  unfold readStatement
  dsimp only
  split
  · exact (readStatementHere_reached hread h.enter).leave
  · exact h.enter

/-! ## Expressions -/

theorem readChained_reached (calls : Bool) (h : Reached src s p) : Reached src s (readChained read mark calls p) := by
  unfold readChained
  split
  · rename_i hcall
    exact (readArguments_reached hread h (Bool.and_eq_true_iff.mp hcall).2).wrap mark .call
  split
  · exact (readIndex_reached hread h ‹_›).wrap mark .index
  · exact (h.require .ident).wrap mark .member

theorem readSuffix_reached (calls : Bool) (h : Reached src s p) : Reached src s (readSuffix read mark calls p).1 := by
  unfold readSuffix
  split
  · exact (h.eat.require .ident).wrap mark .member
  split
  · exact readChained_reached hread calls h.eat
  split
  · exact h
  split
  · exact (readIndex_reached hread h ‹_›).wrap mark .index
  split
  · exact h
  split
  · exact (readArguments_reached hread h ‹_›).wrap mark .call
  split
  · exact h.eat.wrap mark .call
  split
  · exact h.eat.wrap mark .postfixExpr
  · exact h

theorem readOperator_reached (power : Nat) (h : Reached src s p) :
    Reached src s (readOperator read mark power p).1 := by
  unfold readOperator
  split
  · split
    · exact h
    · exact (readExpression_reached hread h.eat).wrap mark .assignment
  · split
    · exact h
    · have hfirst := (readExpression_reached hread h.eat).require .colon
      exact (readExpression_reached hread hfirst).wrap mark .ternary
  · split
    · exact h
    · split
      · exact h
      · exact (hread.expression _ h.eat).wrap mark .binary
  · exact h

theorem readContinuation_reached (power : Nat) (h : Reached src s p) :
    Reached src s (readContinuation read mark power p).1 := by
  have hsuffix : Reached src s (readSuffix read mark true p).1 := readSuffix_reached hread true h
  unfold readContinuation
  dsimp only
  split
  · exact hsuffix
  · exact readOperator_reached hread power hsuffix

theorem readOperand_reached (h : Reached src s p) : Reached src s (readOperand read p) := by
  unfold readOperand
  split
  · exact (hread.expression _ h.eat).wrap _ .unary
  · exact hread.primary h

theorem readOperation_reached (power : Nat) (h : Reached src s p) : Reached src s (readOperation read power p) := by
  unfold readOperation
  dsimp only
  split
  · exact ((readOperand_reached hread h.enter).loop (readContinuation_reached hread power)).leave
  · exact h.enter

theorem readName_reached (h : Reached src s p) : Reached src s (readName read p) := by
  unfold readName
  dsimp only
  split
  · exact (readArrowBody_reached hread (h.eat.wrap _ .params).eat).wrap _ .arrowFunc
  · exact h.eat

theorem readAsync_reached (h : Reached src s p) : Reached src s (readAsync read p) := by
  unfold readAsync
  dsimp only
  split
  · exact (hread.primary h.eat).wrap _ _
  · exact h.eat

theorem readFunctionExpression_reached (h : Reached src s p) : Reached src s (readFunctionExpression read p) :=
  (readFunctionRest_reached hread ((h.eat.skip .star).skip .ident)).wrap _ .funcExpr

theorem readNew_reached (h : Reached src s p) : Reached src s (readNew read p) := by
  have hprimary := hread.primary h.eat
  have hcallee : Reached src s (if p.eat.isAt .newWord then read .primary p.eat
      else (read .primary p.eat).loop (readSuffix read p.eat.mark false)) := by
    split
    · exact hprimary
    · exact hprimary.loop (readSuffix_reached hread false)
  unfold readNew
  dsimp only
  generalize (if p.eat.isAt .newWord then read .primary p.eat
      else (read .primary p.eat).loop (readSuffix read p.eat.mark false)) = q at hcallee ⊢
  apply Reached.wrap
  split
  · rename_i hcall
    exact readArguments_reached hread hcallee (Bool.and_eq_true_iff.mp hcall).1
  · exact hcallee

/-! ## Groups in parentheses -/

/-- **The elements of a group leave the nodes in front of it alone.** -/
theorem readElements_kept (h : Reached src s p) (hat : p.isAt .leftParen = true) :
    p.nodes.toList <+: (readElements read p).nodes.toList := by
  obtain ⟨n, hlater⟩ := readElements_base hread.careful h.sound hat
  exact hlater.kept

/-- So a group may be read again, as the parameters of an arrow function, and be remembered as a whole. -/
theorem readGroup_reached (h : Reached src s p) (hat : p.isAt .leftParen = true) :
    Reached src s (readGroup read p) := by
  have hlater := readElements_reached hread h hat
  have hkept := readElements_kept hread h hat
  unfold readGroup
  split
  · exact h.replay ‹_›
  dsimp only
  split
  · exact hlater.wrap _ .paren
  · have hback := h.rewind hlater hkept
    have hnodes := Parser.Sound.rewind_kept hkept
    have hbody := readArrowBody_reached hread ((readParameters_reached hread hback).require .arrow)
    -- The parameters become a node with text behind the nodes in front of the group, and the whole does so again.
    obtain ⟨params, hparams⟩ := readParameters_base hread.careful hback.sound hat
    rw [hnodes] at hparams
    obtain ⟨whole, hwhole⟩ :=
      (readArrowBody_sound hread.careful (hparams.require .arrow)).wrap_base .arrowFunc
    obtain ⟨kept, trivia, hwholeNodes, htrivia, -⟩ := hwhole.nodes
    have hmark := (Parser.Sound.markBeforeTrivia_eq hwholeNodes htrivia).1
    apply h.remember (hbody.wrap _ .arrowFunc) hwhole.kept
    rw [Parser.mark, ← Array.length_toList]
    refine Nat.le_trans ?_ (Nat.le_of_eq hmark.symm)
    rw [List.append_assoc, List.length_append]
    exact Nat.le_add_right _ _

theorem readPrimary_reached (h : Reached src s p) : Reached src s (readPrimary read p) := by
  unfold readPrimary
  split
  · exact readName_reached hread h
  · exact readAsync_reached hread h
  · exact readGroup_reached hread h (Parser.isAt_of_kind? ‹_›)
  · exact readArray_reached hread h (Parser.isAt_of_kind? ‹_›)
  · exact hread.object h (Parser.isAt_of_kind? ‹_›)
  · exact readFunctionExpression_reached hread h
  · exact readNew_reached hread h
  · exact h.eat
  · exact h.eat
  · exact h.eat
  · exact h.eat
  · exact h.eat
  · exact h.eat
  · exact h.eat
  · exact h.expected _

end Rules

/-! ## Goals and entry points -/

/-- **Every goal is read so**, whatever the fuel. -/
theorem readGoal_trusty (fuel : Nat) : Trusty src s (readGoal fuel) := by
  induction fuel with
  | zero => exact ⟨readGoal_sound 0, fun h => h, fun _ h => h, fun h => h, fun h _ => h⟩
  | succ fuel ih =>
      exact ⟨readGoal_sound (fuel + 1), readStatement_reached ih, readOperation_reached ih,
        readPrimary_reached ih, readObject_reached ih⟩

/-- The rule that an entry point stands for. -/
def Entry.rule : Entry → Parser → Parser
  | statements => readScript
  | expression => readSoleExpression
  | attributes => readAttributes

/-- The kind of the root that is read from an entry point. -/
def Entry.kind : Entry → ScriptKind
  | statements => .statements
  | expression => .expression
  | attributes => .attributes

/-- The parser at the end of a stretch that was read from an entry point. -/
def Entry.last (entry : Entry) (src : Source) (s : Span) : Parser :=
  let p := entry.rule (.ofSpan src s)
  p.eatAll p.budget

/-- Its nodes become the root. -/
theorem readNamed_last (entry : Entry) (src : Source) (s : Span) :
    readNamed src s entry.name = (entry.last src s).finish entry.kind := by
  cases entry with
  | statements => rfl
  | expression => rfl
  | attributes => rfl

theorem readScript_reached (h : Reached src s p) : Reached src s (readScript p) :=
  h.loopUntil (readStatementOrFault_reached (readGoal_trusty _)) [.endOfTokens]

theorem readSoleExpression_reached (h : Reached src s p) : Reached src s (readSoleExpression p) := by
  unfold readSoleExpression
  dsimp only
  apply Reached.loopUntil _ Reached.unexpected
  split
  · exact readExpression_reached (readGoal_trusty _) h
  split
  · exact h
  · exact h.expected _

theorem readAttributes_reached (h : Reached src s p) : Reached src s (readAttributes p) :=
  h.loopUntil (readListedProperty_reached (readGoal_trusty _) .endOfTokens) [.endOfTokens]

/-- **The last parser is reached** from any entry point by steps that find what they rely on. -/
theorem Entry.last_reached (entry : Entry) (hle : s.start ≤ s.stop) (hstop : s.stop ≤ src.size) :
    Reached src s (entry.last src s) := by
  have hstart := Reached.start hle hstop
  apply Reached.eatAll
  cases entry with
  | statements => exact readScript_reached hstart
  | expression => exact readSoleExpression_reached hstart
  | attributes => exact readAttributes_reached hstart

/-- **The parser relies on nothing in vain.**  From any entry point and for any part of a text it is taken to its last
state, whose nodes become the root, by steps that find what they rely on, and it has recorded nothing else.  In every
state that is reached by such steps the white space in front of the current token is among the nodes, and reading any
goal from there goes on with such steps.  Where a group may be read twice, its elements leave the nodes in front of it
as they are, so going back only drops what was read since. -/
theorem parser_safe (before part after : String) (entry : Entry) :
    let src := Source.ofString (before ++ part ++ after)
    let s : Span := ⟨before.length, (before ++ part).length⟩
    readNamed src s entry.name = (entry.last src s).finish entry.kind ∧
      Reached src s (entry.last src s) ∧ (entry.last src s).intact = true ∧
      ∀ p, Reached src s p → p.current.trivia ≤ p.nodes.size ∧ p.intact = true ∧
        ∀ fuel, (∀ goal, (goal = .object → p.isAt .leftBrace = true) → Reached src s (readGoal fuel goal p)) ∧
          (p.isAt .leftParen = true →
            p.nodes.toList <+: (readElements (readGoal fuel) p).nodes.toList ∧
            ((readElements (readGoal fuel) p).rewind p).nodes.toList = p.nodes.toList) := by
  intro src s
  obtain ⟨hle, hstop⟩ := part_within before part after
  have hlast : Reached src s (entry.last src s) := entry.last_reached hle hstop
  refine ⟨readNamed_last entry src s, hlast, hlast.intact, ?_⟩
  intro p hp
  refine ⟨hp.trivia_le, hp.intact, ?_⟩
  intro fuel
  have hread : Trusty src s (readGoal fuel) := readGoal_trusty fuel
  constructor
  · intro goal hobject
    cases goal with
    | statement => exact hread.statement hp
    | expression power => exact hread.expression power hp
    | primary => exact hread.primary hp
    | object => exact hread.object hp (hobject rfl)
  · intro hat
    have hkept := readElements_kept hread hp hat
    exact ⟨hkept, Parser.Sound.rewind_kept hkept⟩

/-- An arrow function with white space in front of it is read twice, and the white space is still there. -/
theorem parser_safe_arrow :
    let src := Source.ofString ("x =" ++ " (a) => b" ++ ";")
    let p := Parser.ofSpan src ⟨3, 12⟩
    (Entry.expression.last src ⟨3, 12⟩).intact = true ∧ p.current.trivia = 1 ∧
      ((readElements (readGoal 4) p).rewind p).nodes.toList = p.nodes.toList := by
  intro src p
  obtain ⟨-, -, hintact, hstates⟩ := parser_safe "x =" " (a) => b" ";" .expression
  have hstart : Reached src ⟨3, 12⟩ p := .start (by decide) (by decide)
  have hat : p.isAt .leftParen = true := by decide +kernel
  exact ⟨hintact, by decide +kernel, (((hstates p hstart).2.2 4).2 hat).2⟩

end ComponentMarkup.Script
