import ComponentMarkup.Proofs.Script.Lockstep

/-!
# The rules of the script grammar in lockstep

Every rule of the grammar keeps a relation in lockstep if reading goals does.  A rule is put together from steps,
choices and marks, and its lemma from the lemmas about these.

Nesting and the memory of arrow functions stay out: a statement, an expression and a parenthesized group are
not only read by what is ahead.  Rules for operators make branches of their own kinds; their lemmas ask that such
branches may be made too.

* `readStatementHere_abreast` — a statement, once a level of nesting has been entered;
* `readObject_inStep`, `readArray_inStep`, `readElements_inStep`, … — what starts with a token of its own;
* `readContinuation_inStep`, `readOperand_inStep`, `readNew_inStep` — operators.
-/

namespace ComponentMarkup.Script

open ComponentMarkup.Text ComponentMarkup.Tree

variable {Lost : Parser → Prop} {R₀ R R' : Parser → Parser → Prop} {M : Nat → Nat → Prop} {m n : Nat}
  {read read' : Reader}

section Rules

variable (lock : Lockstep Lost R M) (hread : ReadersInStep Lost R read read')

include lock hread

omit lock in
theorem readExpression_inStep : InStep Lost R R (readExpression read) (readExpression read') :=
  hread.goal (.expression assignPower) Goal.noConfusion

/-! ### Lists in brackets -/

theorem readSpread_inStep : InStep Lost R R (readSpread read) (readSpread read') :=
  lock.wrapFrom lock.mark ((lock.known .dots).andThen (readExpression_inStep hread)) rfl

theorem readElement_inStep (close : ScriptKind) :
    InStep Lost R R (readElement read close) (readElement read' close) := by
  have hone : InStep Lost R R
      (fun p => if p.isAt .dots then readSpread read p else readExpression read p)
      (fun q => if q.isAt .dots then readSpread read' q else readExpression read' q) :=
    .ite (lock.isAt .dots) (readSpread_inStep lock hread) (readExpression_inStep hread)
  exact .ite (lock.isAtOrAny .dots expressionStart) (hone.andThen (lock.separate close)) lock.notExpected

theorem readElements_inStep (first : Opening R₀ R M) :
    InStep Lost R₀ R (readElements read) (readElements read') :=
  lock.closeFrom first.mark ((first.known lock.beyond .leftParen).andThen
    (lock.loopUntil [.rightParen, .endOfTokens] (readElement_inStep lock hread .rightParen))) .rightParen

theorem readArguments_inStep (first : Opening R₀ R M) :
    InStep Lost R₀ R (readArguments read) (readArguments read') :=
  lock.wrapFrom first.mark (readElements_inStep lock hread first) rfl

theorem readArray_inStep (frame : Framing R₀ R R' M) :
    InStep Lost R₀ R' (readArray read) (readArray read') := by
  have hone : InStep Lost R R
      (fun p => if p.isAt .comma then p.eat else readElement read .rightBracket p)
      (fun q => if q.isAt .comma then q.eat else readElement read' .rightBracket q) :=
    .ite (lock.isAt .comma) lock.next (readElement_inStep lock hread .rightBracket)
  exact lock.frameFrom frame (lock.closeFrom frame.mark
    ((frame.known lock.beyond .leftBracket).andThen
      (lock.loopUntil [.rightBracket, .endOfTokens] hone)) .rightBracket) (by decide)

theorem readIndex_inStep (first : Opening R₀ R M) : InStep Lost R₀ R (readIndex read) (readIndex read') :=
  lock.closeFrom first.mark ((first.known lock.beyond .leftBracket).andThen (readExpression_inStep hread))
    .rightBracket

/-! ### Blocks, functions and objects -/

theorem readStatementOrFault_inStep :
    InStep Lost R R (readStatementOrFault read) (readStatementOrFault read') :=
  .ite (lock.isAtAny anyStatementStart) (hread.goal .statement Goal.noConfusion) lock.notExpected

theorem readBlock_inStep : InStep Lost R R (readBlock read) (readBlock read') := by
  have hlist (m n : Nat) := (((lock.marked m n).loopUntil statementEnd
    (readStatementOrFault_inStep (lock.marked m n) (hread.marked M m n))).andThen
      (lock.closeMarked .rightBrace)).andThen (lock.wrapMarked (k := .block) rfl)
  have hblock (m n : Nat) := InStep.bind ((lock.marked m n).expect .leftBrace) fun found =>
    .given (!found) (.stay fun h => h) (hlist m n)
  exact .withMark lock.mark hblock

theorem readBinding_inStep : InStep Lost R R (readBinding read) (readBinding read') :=
  .ite (lock.isAt .leftBracket) (readArray_inStep lock hread (lock.framing lock.opening))
    (.ite_of (lock.isAt .leftBrace) hread.object ((lock.require .ident).weaken fun h => h.1))

/-- The value that may be assigned to what was just read. -/
theorem readAssigned_inStep :
    InStep Lost R R (fun p => if p.isAt .assign then readExpression read p.eat else p)
      (fun q => if q.isAt .assign then readExpression read' q.eat else q) :=
  .ite (lock.isAt .assign) (lock.next.andThen (readExpression_inStep hread)) (.stay fun h => h)

theorem readParameter_inStep : InStep Lost R R (readParameter read) (readParameter read') := by
  have hvalue (m n : Nat) : InStep Lost (Marked M m n R) (Marked M m n R)
      (fun p => if p.isAt .assign then (readExpression read p.eat).wrap m .assignment else p)
      (fun q => if q.isAt .assign then (readExpression read' q.eat).wrap n .assignment else q) :=
    .ite ((lock.marked m n).isAt .assign)
      (((lock.marked m n).next.andThen (readExpression_inStep (hread.marked M m n))).andThen
        (lock.wrapMarked rfl)) (.stay fun h => h)
  have hbound (m n : Nat) (spread : Bool) :=
    ((readBinding_inStep (lock.marked m n) (hread.marked M m n)).andThen
      (.given spread (lock.wrapMarked (k := .spread) rfl) (hvalue m n))).andThen
        ((lock.marked m n).separate .rightParen)
  have hparameter (m n : Nat) := InStep.bind ((lock.marked m n).eatIf .dots) fun spread =>
    .ite ((lock.marked m n).isNotAtAny [.ident, .leftBracket, .leftBrace]) (lock.marked m n).notExpected
      (hbound m n spread)
  exact .withMark lock.mark hparameter

/-- Parameters may follow a token that was taken before. -/
theorem readParametersFrom_inStep (hmark : ∀ {p q}, R₀ p q → M p.mark q.mark)
    (hopen : BothInStep Lost R₀ R (·.expect .leftParen) (·.expect .leftParen)) :
    InStep Lost R₀ R (readParameters read) (readParameters read') := by
  have hlist (m n : Nat) := (((lock.marked m n).loopUntil [.rightParen, .endOfTokens]
    (readParameter_inStep (lock.marked m n) (hread.marked M m n))).andThen
      (lock.closeMarked .rightParen)).andThen (lock.wrapMarked (k := .params) rfl)
  have hparameters (m n : Nat) := InStep.bind (hopen.marked M m n) fun found =>
    .given (!found) (.stay fun h => h) (hlist m n)
  exact .withMark hmark hparameters

theorem readParameters_inStep : InStep Lost R R (readParameters read) (readParameters read') :=
  readParametersFrom_inStep lock hread lock.mark (lock.expect .leftParen)

theorem readFunctionRest_inStep : InStep Lost R R (readFunctionRest read) (readFunctionRest read') :=
  (readParameters_inStep lock hread).andThen (readBlock_inStep lock hread)

theorem readArrowBody_inStep : InStep Lost R R (readArrowBody read) (readArrowBody read') :=
  .ite (lock.isAt .leftBrace) (readBlock_inStep lock hread) (readExpression_inStep hread)

theorem readKey_inStep : InStep Lost R R (readKey read) (readKey read') :=
  .ite (lock.isAt .leftBracket) (readIndex_inStep lock hread lock.opening)
    (.ite_of (lock.isAtAny Parser.reserved) (lock.asIdent.weaken fun h => ⟨h.1, isAtAny_words (.inr h.2)⟩)
      (lock.next.weaken fun h => h.1))

theorem readValue_inStep (shorthand : Bool) :
    InStep Lost R R (readValue read shorthand) (readValue read' shorthand) := by
  have hgiven : InStep Lost R R
      (fun p => if p.isAtAny expressionStart then readExpression read p else p.expected "expression")
      (fun q => if q.isAtAny expressionStart then readExpression read' q else q.expected "expression") :=
    .ite (lock.isAtAny expressionStart) (readExpression_inStep hread) (lock.expectedHere _)
  exact .ite (lock.isAt .colon) (lock.next.andThen hgiven)
    (.ite (lock.isAt .leftParen) (readFunctionRest_inStep lock hread)
      (.given (!shorthand) (lock.expectedHere _) (readAssigned_inStep lock hread)))

/-- The key, and the value that goes with it, start at an identifier for both or for none. -/
theorem readKeyed_inStep :
    InStep Lost R R (fun p => readValue read (p.isAt .ident) (readKey read p))
      (fun q => readValue read' (q.isAt .ident) (readKey read' q)) := by
  have hkeyed (shorthand : Bool) :=
    (readKey_inStep lock hread).andThen (readValue_inStep lock hread shorthand)
  refine ⟨(hkeyed _).left, (hkeyed _).right, fun h => ?_⟩
  rw [lock.isAt .ident h]
  exact (hkeyed _).keeps h

theorem readProperty_inStep : InStep Lost R R (readProperty read) (readProperty read') :=
  .ite (lock.isAt .dots) (readSpread_inStep lock hread)
    (lock.wrapFrom lock.mark (readKeyed_inStep lock hread) rfl)

theorem readListedProperty_inStep (close : ScriptKind) :
    InStep Lost R R (readListedProperty read close) (readListedProperty read' close) :=
  .ite (lock.isNotAtAny propertyStart) lock.notExpected
    ((readProperty_inStep lock hread).andThen (lock.separate close))

theorem readObject_inStep (frame : Framing R₀ R R' M) :
    InStep Lost R₀ R' (readObject read) (readObject read') :=
  lock.frameFrom frame (lock.closeFrom frame.mark
    ((frame.known lock.beyond .leftBrace).andThen (lock.loopUntil [.rightBrace, .endOfTokens]
      (readListedProperty_inStep lock hread .rightBrace))) .rightBrace) (by decide)

/-! ### Statements -/

omit hread in
theorem endStatement_inStep : InStep Lost R R endStatement endStatement := by
  have hend (found : Bool) : InStep Lost R R
      (fun p => if found || p.newline || p.isAtAny statementEnd then p
        else p.expected "semicolon or line break")
      (fun q => if found || q.newline || q.isAtAny statementEnd then q
        else q.expected "semicolon or line break") :=
    .ite (fun h => by rw [(lock.ahead h).newline, lock.isAtAny statementEnd h]) (.stay fun h => h)
      (lock.expectedHere _)
  exact .bind (lock.eatIf .semicolon) hend

theorem readDeclarator_inStep : BothInStep Lost R R (readDeclarator read) (readDeclarator read') := by
  have hbound := (readBinding_inStep lock hread).andThen (readAssigned_inStep lock hread)
  have hcomma := BothInStep.after hbound (lock.eatIf .comma)
  exact hcomma

theorem readDeclaration_inStep : InStep Lost R R (readDeclaration read) (readDeclaration read') :=
  lock.wrapFrom lock.mark ((lock.next.andThen (lock.loop (readDeclarator_inStep lock hread))).andThen
    (endStatement_inStep lock)) rfl

/-- A function from its word on. -/
theorem readFunctionHere_inStep :
    InStep Lost R R
      (fun p => readFunctionRest read (((p.eatKnown .functionWord).skip .star).require .ident))
      (fun q => readFunctionRest read' (((q.eatKnown .functionWord).skip .star).require .ident)) :=
  (((lock.known .functionWord).andThen (lock.skip .star)).andThen (lock.require .ident)).andThen
    (readFunctionRest_inStep lock hread)

theorem readFunction_inStep :
    InStep Lost R R (fun p => readFunction read p.mark p) (fun q => readFunction read' q.mark q) :=
  lock.wrapFrom lock.mark (readFunctionHere_inStep lock hread) rfl

theorem readAsyncFunction_inStep :
    InStep Lost R R (fun p => readFunction read p.mark p.eat) (fun q => readFunction read' q.mark q.eat) :=
  lock.wrapFrom lock.mark (lock.next.andThen (readFunctionHere_inStep lock hread)) rfl

theorem readCondition_inStep : InStep Lost R R (readCondition read) (readCondition read') := by
  have hcondition (m n : Nat) := InStep.bind ((lock.marked m n).expect .leftParen) fun found =>
    .given found ((readExpression_inStep (hread.marked M m n)).andThen (lock.closeMarked .rightParen))
      (.stay fun h => h)
  exact .withMark lock.mark hcondition

theorem readBody_inStep : InStep Lost R R (readBody read) (readBody read') :=
  .ite (lock.isAtAny anyStatementStart) (hread.goal .statement Goal.noConfusion)
    (lock.expectedHere _)

theorem readIf_inStep : InStep Lost R R (readIf read) (readIf read') := by
  have hthen := ((lock.known .ifWord).andThen (readCondition_inStep lock hread)).andThen
    (readBody_inStep lock hread)
  have helse := InStep.bind (.after hthen (lock.eatIf .elseWord)) fun found =>
    .given found (readBody_inStep lock hread) (.stay fun h => h)
  exact lock.wrapFrom lock.mark helse rfl

theorem readClause_inStep : InStep Lost R R (readClause read) (readClause read') := by
  have hrest : InStep Lost R R
      (fun p => if p.isAtAny [.semicolon, .rightParen] then p else readExpression read p)
      (fun q => if q.isAtAny [.semicolon, .rightParen] then q else readExpression read' q) :=
    .ite (lock.isAtAny _) (.stay fun h => h) (readExpression_inStep hread)
  exact (lock.require .semicolon).andThen hrest

theorem readLoopStart_inStep : InStep Lost R R (readLoopStart read) (readLoopStart read') :=
  .ite (lock.isAtAny _)
    ((lock.next.andThen (readBinding_inStep lock hread)).andThen (readAssigned_inStep lock hread))
    (.ite (lock.isAt .semicolon) (.stay fun h => h) (readExpression_inStep hread))

theorem readFor_inStep : InStep Lost R R (readFor read) (readFor read') := by
  have hword := (lock.known .forWord).andThen (lock.skip .awaitWord)
  have hclauses := (readClause_inStep lock hread).andThen (readClause_inStep lock hread)
  have hbounds : InStep Lost R R
      (fun p => if p.isAt .ofWord || p.isAt .inWord then readExpression read p.eat
        else readClause read (readClause read p))
      (fun q => if q.isAt .ofWord || q.isAt .inWord then readExpression read' q.eat
        else readClause read' (readClause read' q)) :=
    .ite (lock.isAtEither .ofWord .inWord) (lock.next.andThen (readExpression_inStep hread)) hclauses
  have hhead := lock.closeFrom lock.mark
    (((lock.require .leftParen).andThen (readLoopStart_inStep lock hread)).andThen hbounds) .rightParen
  exact lock.wrapFrom lock.mark (hword.andThen (hhead.andThen (readBody_inStep lock hread))) rfl

theorem readWhile_inStep : InStep Lost R R (readWhile read) (readWhile read') :=
  lock.wrapFrom lock.mark ((lock.next.andThen (readCondition_inStep lock hread)).andThen
    (readBody_inStep lock hread)) rfl

theorem readReturn_inStep : InStep Lost R R (readReturn read) (readReturn read') := by
  have hvalue : InStep Lost R R
      (fun p => if !p.newline && p.isAtAny expressionStart then readExpression read p else p)
      (fun q => if !q.newline && q.isAtAny expressionStart then readExpression read' q else q) :=
    .ite (lock.onLineAtAny expressionStart) (readExpression_inStep hread) (.stay fun h => h)
  exact lock.wrapFrom lock.mark ((lock.next.andThen hvalue).andThen (endStatement_inStep lock)) rfl

omit hread in
theorem readJump_inStep : InStep Lost R R readJump readJump := by
  have hlabel : InStep Lost R R (fun p => if !p.newline && p.isAt .ident then p.eat else p)
      (fun q => if !q.newline && q.isAt .ident then q.eat else q) :=
    .ite (lock.onLineAt .ident) lock.next (.stay fun h => h)
  exact lock.wrapFrom lock.mark ((lock.next.andThen hlabel).andThen (endStatement_inStep lock)) rfl

/-! ### Imports and exports -/

omit hread in
theorem readSpecifier_inStep : InStep Lost R R readSpecifier readSpecifier := by
  have hname : InStep Lost R R
      (fun p => if p.isAtAny Parser.reserved then p.eatWithKind .ident else p.require .ident)
      (fun q => if q.isAtAny Parser.reserved then q.eatWithKind .ident else q.require .ident) :=
    .ite_of (lock.isAtAny Parser.reserved) (lock.asIdent.weaken fun h => ⟨h.1, isAtAny_words (.inr h.2)⟩)
      ((lock.require .ident).weaken fun h => h.1)
  have hrest (renamed : Bool) : InStep Lost R R
      (fun p => if !renamed then p
        else if p.isAtAny Parser.reserved then p.eatWithKind .ident else p.require .ident)
      (fun q => if !renamed then q
        else if q.isAtAny Parser.reserved then q.eatWithKind .ident else q.require .ident) :=
    .given (!renamed) (.stay fun h => h) hname
  refine .ite_of (fun {p q} h => ?_) (lock.notExpected.weaken fun h => h.1)
    (.bind (.after (lock.asIdent.weaken fun h => ⟨h.1, isAtAny_words ?_⟩) (lock.eatIf .asWord))
      fun renamed => (hrest renamed).andThen (lock.separate .rightBrace))
  · rw [lock.isAtOrAny .ident Parser.reserved h]
  · rw [← Bool.or_eq_true, ← Bool.not_eq_false']
    exact h.2

omit hread in
theorem readSpecifiers_inStep : InStep Lost R R readSpecifiers readSpecifiers :=
  lock.closeFrom lock.mark ((lock.known .leftBrace).andThen
    (lock.loopUntil statementEnd (readSpecifier_inStep lock))) .rightBrace

omit hread in
theorem readImportClause_inStep : BothInStep Lost R R readImportClause readImportClause := by
  have hstar := (lock.next.andThen (lock.require .asWord)).andThen (lock.require .ident)
  exact .ite (lock.isAt .ident) (.after lock.next (lock.eatIf .comma))
    (.ite (lock.isAt .star) (.after hstar (lock.eatIf .comma))
      (.ite (lock.isAt .leftBrace) (.after (readSpecifiers_inStep lock) (lock.eatIf .comma))
        (.answer (lock.expectedHere _) false)))

omit hread in
theorem readImport_inStep : InStep Lost R R readImport readImport := by
  have hclauses := ((lock.loop (readImportClause_inStep lock)).andThen (lock.require .fromWord)).andThen
    (lock.require .str)
  have hnames := InStep.bind (.after (lock.known .importWord) (lock.eatIf .str)) fun bare =>
    .given bare (.stay fun h => h) hclauses
  exact lock.wrapFrom lock.mark (hnames.andThen (endStatement_inStep lock)) rfl

omit hread in
theorem readExportList_inStep : InStep Lost R R readExportList readExportList := by
  have hstar := InStep.bind (.after lock.next (lock.eatIf .asWord)) fun renamed =>
    .given renamed (lock.require .ident) (.stay fun h => h)
  have hnames : InStep Lost R R _ _ := .ite (lock.isAt .star) hstar (readSpecifiers_inStep lock)
  have hfrom := InStep.bind (.after hnames (lock.eatIf .fromWord)) fun found =>
    .given found (lock.require .str) (.stay fun h => h)
  exact hfrom.andThen (endStatement_inStep lock)

omit hread in
theorem isAtAsyncFunction_inStep {p q : Parser} (h : R p q) :
    isAtAsyncFunction p = isAtAsyncFunction q := by
  unfold isAtAsyncFunction
  rw [lock.isAt .asyncWord h, (lock.ahead h).ahead]

theorem readExport_inStep : InStep Lost R R (readExport read) (readExport read') := by
  have hdefault := (lock.next.andThen (readExpression_inStep hread)).andThen (endStatement_inStep lock)
  have hlist : InStep Lost R R _ _ := .ite (lock.isAtAny [.leftBrace, .star]) (readExportList_inStep lock)
    (lock.expectedHere "declaration or export list")
  have hfunctions : InStep Lost R R _ _ := .ite (lock.isAt .functionWord) (readFunction_inStep lock hread)
    (.ite (isAtAsyncFunction_inStep lock) (readAsyncFunction_inStep lock hread) hlist)
  have hexported : InStep Lost R R _ _ := .ite (lock.isAt .defaultWord) hdefault
    (.ite (lock.isAtAny [.letWord, .constWord, .varWord]) (readDeclaration_inStep lock hread) hfunctions)
  exact lock.wrapFrom lock.mark ((lock.known .exportWord).andThen hexported) rfl

theorem readExpressionStatement_inStep :
    InStep Lost R R (readExpressionStatement read) (readExpressionStatement read') :=
  lock.wrapFrom lock.mark ((readExpression_inStep hread).andThen (endStatement_inStep lock)) rfl

/-- Statements of all kinds keep the parsers abreast. -/
theorem readStatementHere_abreast {p q : Parser} (h : R p q) :
    Abreast Lost R (readStatementHere read p) (readStatementHere read' q) := by
  have hdeclaration := (readDeclaration_inStep lock hread).keeps h
  have hexpression := (readExpressionStatement_inStep lock hread).keeps h
  have hasync : InStep Lost R R
      (fun p => if p.nextIs .functionWord then readFunction read p.mark p.eat
        else readExpressionStatement read p)
      (fun q => if q.nextIs .functionWord then readFunction read' q.mark q.eat
        else readExpressionStatement read' q) :=
    .ite (fun h => congrFun (lock.ahead h).ahead .functionWord) (readAsyncFunction_inStep lock hread)
      (readExpressionStatement_inStep lock hread)
  unfold readStatementHere
  rw [lock.kind? h]
  split
  · exact hdeclaration
  · exact hdeclaration
  · exact hdeclaration
  · exact (readFunction_inStep lock hread).keeps h
  · exact hasync.keeps h
  · exact (readReturn_inStep lock hread).keeps h
  · exact (readIf_inStep lock hread).keeps h
  · exact (readFor_inStep lock hread).keeps h
  · exact (readWhile_inStep lock hread).keeps h
  · exact (readJump_inStep lock).keeps h
  · exact (readJump_inStep lock).keeps h
  · exact (readImport_inStep lock).keeps h
  · exact (readExport_inStep lock hread).keeps h
  · exact (readBlock_inStep lock hread).keeps h
  · exact lock.next.keeps h
  · exact hexpression

/-! ### Primary expressions -/

theorem readName_inStep (frame : Framing R₀ R R' M) :
    InStep Lost R₀ R' (readName read) (readName read') := by
  have hparams := lock.wrapFrom (k := .params) frame.mark (frame.next lock.beyond) rfl
  have hbody := (hparams.andThen lock.next).andThen (readArrowBody_inStep lock hread)
  exact .ite (fun h => (lock.ahead (frame.eat h)).isAtArrow) (lock.frameFrom frame hbody (by decide))
    (.of lock.beyond.eat lock.beyond.eat frame.single)

/-- The kind of the branch over an asynchronous function without a name, which starts at a mark. -/
def functionKind (mark : Nat) (p : Parser) : ScriptKind :=
  if (p.nodes[mark]?).any (·.isScript .funcExpr) then .funcExpr else .arrowFunc

omit lock hread in
theorem functionKind_mem (mark : Nat) (p : Parser) : functionKind mark p ∈ primaryKinds := by
  unfold functionKind
  split <;> decide

theorem readAsync_inStep (frame : Framing R₀ R R' M) :
    InStep Lost R₀ R' (readAsync read) (readAsync read') := by
  have hprimary := (frame.next lock.beyond).andThen (hread.goal .primary Goal.noConfusion)
  have hfunction : InStep Lost R₀ R'
      (fun p => (read .primary p.eat).wrap p.mark (functionKind p.eat.mark (read .primary p.eat)))
      (fun q => (read' .primary q.eat).wrap q.mark (functionKind q.eat.mark (read' .primary q.eat))) := by
    refine ⟨fun hp => lock.beyond.wrap _ _ (hprimary.left hp),
      fun hq => lock.beyond.wrap _ _ (hprimary.right hq), fun {p q} h => ?_⟩
    rcases hprimary.keeps h with hlost | hlost | hnext
    · exact .inl (lock.beyond.wrap _ _ hlost)
    · exact .inr (.inl (lock.beyond.wrap _ _ hlost))
    · have hkind : functionKind p.eat.mark (read .primary p.eat) =
          functionKind q.eat.mark (read' .primary q.eat) := by
        unfold functionKind
        rw [lock.isFunction (lock.mark (frame.eat h)) hnext]
      rw [hkind]
      exact .of (frame.frame (functionKind_mem _ _) h hnext)
  refine .ite (fun h => ?_) hfunction (.of lock.beyond.eat lock.beyond.eat frame.single)
  exact lock.isAtAnyOnLine [.ident, .leftParen, .functionWord] (frame.eat h)

theorem readFunctionExpression_inStep (frame : Framing R₀ R R' M) :
    InStep Lost R₀ R' (readFunctionExpression read) (readFunctionExpression read') :=
  lock.frameFrom frame ((((frame.next lock.beyond).andThen (lock.skip .star)).andThen
    (lock.skip .ident)).andThen (readFunctionRest_inStep lock hread)) (by decide)

/-- What is constructed, without calls. -/
def readCallee (read : Reader) (p : Parser) : Parser :=
  if p.isAt .newWord then read .primary p else (read .primary p).loop (readSuffix read p.mark false)

/-- A construction, if what is constructed keeps the parsers in step. -/
theorem readNew_inStep (hcallee : InStep Lost R R (readCallee read) (readCallee read'))
    (frame : Framing R₀ R R' M) : InStep Lost R₀ R' (readNew read) (readNew read') := by
  have hcalled : InStep Lost R R _ _ := .ite (lock.isAtOnLine .leftParen)
    (readArguments_inStep lock hread lock.opening) (.stay fun h => h)
  exact lock.frameFrom frame (((frame.next lock.beyond).andThen hcallee).andThen hcalled) (by decide)

end Rules

/-! ### Operators -/

/-- Any branches may be made, those of operators as well. -/
def WrapsAll (R : Parser → Parser → Prop) (M : Nat → Nat → Prop) : Prop :=
  ∀ {p q m n} {k : ScriptKind}, (k != .embed) = true → M m n → R p q → R (p.wrap m k) (q.wrap n k)

theorem WrapsAll.marked (hwraps : WrapsAll R M) (lock : Lockstep Lost R M) {k : ScriptKind}
    (hk : (k != .embed) = true) :
    InStep Lost (Marked M m n R) (Marked M m n R) (·.wrap m k) (·.wrap n k) :=
  .of (lock.beyond.wrap m k) (lock.beyond.wrap n k) fun h => ⟨h.1, hwraps hk h.1 h.2⟩

theorem WrapsAll.kept (hwraps : WrapsAll R M) (m n : Nat) : WrapsAll (Marked M m n R) M :=
  fun hk hmark h => ⟨h.1, hwraps hk hmark h.2⟩

/-- The rule for an operator of a kind and a text. -/
def operatorRule (read : Reader) (mark power : Nat) (k : Option ScriptKind) (text : String) (p : Parser) :
    Parser × Bool :=
  match k with
  | some .assign =>
    if assignPower < power then (p, false)
    else ((readExpression read p.eat).wrap mark .assignment, true)
  | some .question =>
    if conditionalPower < power then (p, false)
    else ((readExpression read ((readExpression read p.eat).require .colon)).wrap mark .ternary, true)
  | some kind =>
    match binaryPower? kind text with
    | none => (p, false)
    | some (tightness, toRight) =>
      if tightness < power then (p, false)
      else ((read (.expression (if toRight then tightness else tightness + 1)) p.eat).wrap mark .binary, true)
  | none => (p, false)

theorem readOperator_eq (read : Reader) (mark power : Nat) (p : Parser) :
    readOperator read mark power p = operatorRule read mark power p.kind? p.current.node.text p :=
  rfl

/-- The kinds of branches that what follows an expression makes with it. -/
def suffixKinds : List ScriptKind :=
  [.member, .index, .call, .postfixExpr]

section Suffixes

variable (lock : Lockstep Lost R M) (hread : ReadersInStep Lost R read read')
  (hwrap : ∀ k ∈ suffixKinds, InStep Lost R R' (·.wrap m k) (·.wrap n k))

include lock hread hwrap

theorem readChained_inStep (calls : Bool) :
    InStep Lost R R' (readChained read m calls) (readChained read' n calls) := by
  have hcall := (readArguments_inStep lock hread lock.opening).andThen (hwrap .call (by decide))
  have hindex := (readIndex_inStep lock hread lock.opening).andThen (hwrap .index (by decide))
  have hmember := (lock.require .ident).andThen (hwrap .member (by decide))
  exact .ite (fun h => by rw [lock.isAt .leftParen h]) hcall (.ite (lock.isAt .leftBracket) hindex hmember)

/-- What follows an expression leads from one relation to another, if its first token and the branch around it
do. -/
theorem readSuffix_inStep (first : Opening (Here R₀) R M) (hahead : ∀ {p q}, R₀ p q → p.SameAhead q)
    (calls : Bool) : MoreInStep Lost R₀ R' (readSuffix read m calls) (readSuffix read' n calls) := by
  have hat (k : ScriptKind) {p q : Parser} (h : R₀ p q) : p.isAt k = q.isAt k := (hahead h).isAt k
  have htaken {k : ScriptKind} (hk : k ≠ .endOfTokens) := (first.at hk).next lock.beyond
  have hmember := ((htaken (k := .dot) ScriptKind.noConfusion).andThen (lock.require .ident)).andThen
    (hwrap .member (by decide))
  have hchained := (htaken (k := .questionDot) ScriptKind.noConfusion).andThen
    (readChained_inStep lock hread hwrap calls)
  have hindex := (readIndex_inStep lock hread (first.at (k := .leftBracket) ScriptKind.noConfusion)).andThen
    (hwrap .index (by decide))
  have hcall := (readArguments_inStep lock hread (first.at (k := .leftParen) ScriptKind.noConfusion)).andThen
    (hwrap .call (by decide))
  have htemplate := (htaken (k := .template) ScriptKind.noConfusion).andThen (hwrap .call (by decide))
  have hpostfix := (htaken (k := .step) ScriptKind.noConfusion).andThen (hwrap .postfixExpr (by decide))
  exact .ite (hat .dot) (.more hmember)
    (.ite (hat .questionDot) (.more hchained)
      (.ite (fun h => (hahead h).newline) .stop
        (.ite (hat .leftBracket) (.more hindex)
          (.ite (fun _ => rfl) .stop
            (.ite (hat .leftParen) (.more hcall)
              (.ite (hat .template) (.more htemplate)
                (.ite (hat .step) (.more hpostfix) .stop)))))))

end Suffixes

section Operators

variable (lock : Lockstep Lost R M) (hread : ReadersInStep Lost R read read') (hwraps : WrapsAll R M)

include lock hread hwraps

/-- Something may follow an expression at marks kept in mind. -/
theorem readMarkedSuffix_inStep (calls : Bool) (m n : Nat) :
    MoreInStep Lost (Marked M m n R) (Marked M m n R) (readSuffix read m calls) (readSuffix read' n calls) := by
  have lock' := lock.marked m n
  have hwrap : ∀ k ∈ suffixKinds, InStep Lost (Marked M m n R) (Marked M m n R) (·.wrap m k) (·.wrap n k) :=
    fun k hk => hwraps.marked lock (by revert k; decide)
  exact readSuffix_inStep lock' (hread.marked M m n) hwrap (lock'.opening.weaken And.left) lock'.ahead calls

theorem operatorRule_inStep (power m n : Nat) (k : Option ScriptKind) (text : String) :
    BothInStep Lost (Marked M m n R) (Marked M m n R) (operatorRule read m power k text)
      (operatorRule read' n power k text) := by
  have lock' := lock.marked m n
  have hread' := hread.marked M m n
  have hvalue := lock'.next.andThen (readExpression_inStep hread')
  have hassignment := hvalue.andThen (hwraps.marked lock (k := .assignment) rfl)
  have hternary := ((hvalue.andThen (lock'.require .colon)).andThen (readExpression_inStep hread')).andThen
    (hwraps.marked lock (k := .ternary) rfl)
  have hbinary (power : Nat) := (lock'.next.andThen
    (hread'.goal (.expression power) Goal.noConfusion)).andThen
      (hwraps.marked lock (k := .binary) rfl)
  have hstop : BothInStep Lost (Marked M m n R) (Marked M m n R) (fun p => (p, false)) (fun q => (q, false)) :=
    .answer (.stay fun h => h) false
  unfold operatorRule
  split
  · split
    · exact hstop
    · exact .answer hassignment true
  · split
    · exact hstop
    · exact .answer hternary true
  · split
    · exact hstop
    · split
      · exact hstop
      · exact .answer (hbinary _) true
  · exact hstop

theorem readOperator_inStep (power m n : Nat) :
    BothInStep Lost (Marked M m n R) (Marked M m n R) (readOperator read m power)
      (readOperator read' n power) := by
  have hrule := operatorRule_inStep lock hread hwraps power m n
  refine ⟨fun h => (hrule _ _).left h, fun h => (hrule _ _).right h, fun {p q} h => ?_⟩
  rw [readOperator_eq, readOperator_eq, ← (lock.ahead h.2).kind?, ← (lock.ahead h.2).text]
  exact (hrule _ _).keeps h

theorem readContinuation_inStep (power m n : Nat) :
    BothInStep Lost (Marked M m n R) (Marked M m n R) (readContinuation read m power)
      (readContinuation read' n power) := by
  have hrest (found : Bool) : BothInStep Lost (Marked M m n R) (Marked M m n R)
      (fun p => if found then (p, true) else readOperator read m power p)
      (fun q => if found then (q, true) else readOperator read' n power q) :=
    .ite (fun _ => rfl) (.answer (.stay fun h => h) true) (readOperator_inStep lock hread hwraps power m n)
  exact .bind (readMarkedSuffix_inStep lock hread hwraps true m n).both hrest

theorem readOperand_inStep : InStep Lost R R (readOperand read) (readOperand read') := by
  have hoperand (m n : Nat) := ((lock.marked m n).next.andThen
    ((hread.marked M m n).goal (.expression unaryPower) Goal.noConfusion)).andThen
      (hwraps.marked lock (k := .unary) rfl)
  exact .ite (lock.isAtAny unaryOperator) (.withMark lock.mark hoperand)
    (hread.goal .primary Goal.noConfusion)

/-- An operand and what follows it. -/
theorem readOperands_inStep (power : Nat) :
    InStep Lost R R (fun p => (readOperand read p).loop (readContinuation read p.mark power))
      (fun q => (readOperand read' q).loop (readContinuation read' q.mark power)) := by
  have hsteps (m n : Nat) :=
    (readOperand_inStep (lock.marked m n) (hread.marked M m n) (hwraps.kept m n)).andThen
      ((lock.marked m n).loop (readContinuation_inStep lock hread hwraps power m n))
  exact .withMark lock.mark hsteps

theorem readCallee_inStep : InStep Lost R R (readCallee read) (readCallee read') := by
  have hsuffixes (m n : Nat) := ((hread.marked M m n).goal .primary Goal.noConfusion).andThen
    ((lock.marked m n).loop (readMarkedSuffix_inStep lock hread hwraps false m n).both)
  exact .ite (lock.isAt .newWord) (hread.goal .primary Goal.noConfusion) (.withMark lock.mark hsuffixes)

end Operators

end ComponentMarkup.Script
