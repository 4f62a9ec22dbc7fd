import ComponentMarkup.Proofs.Script.BracketSteps
import ComponentMarkup.Proofs.Script.GrammarTiling

/-!
# Unclosed brackets of the script grammar

Every rule of the grammar leaves orderly nodes behind any base.  Rules that start with a token of their own need no
base: what they read stands behind everything that was there before.

A bare loop, one without an opening parenthesis, is the exception.  What is expected there is put before the white space
in front of the token, so the mark where the parenthesis would be is that of the white space, which is said to be
unclosed.

* `Reads` — a reader that keeps what lasts; the lemma about a rule is named for it and says what the rule does if its
  reader does;
* `Parser.Past` — a parser in the head of a loop without a parenthesis;
* `readGoal_reads` — every goal is read so, with any amount of fuel;
* `Parser.Ready.bareLoop` — there the tokens have such a loop;
* `readNamed_opened` — in a script tree, only opening brackets are said to be unclosed, and white space in bare loops.
-/

namespace ComponentMarkup.Script

open ComponentMarkup.Text ComponentMarkup.Tree

variable {lx : Lexer} {was : Prop} {base N : List Node} {p q : Parser} {k : ScriptKind} {b : Bracket} {mark lo : Nat}
  {I : Parser → Prop} {read : Reader}

/-- A reader that keeps what lasts.  A statement keeps what stands behind a base. -/
structure Reads (lx : Lexer) (read : Reader) : Prop where
  statement : ∀ {was : Prop} {base : List Node} {p : Parser}, p.Clear lx was base →
    (read .statement p).Clear lx was base
  expression : ∀ {lo : Nat} {I : Parser → Prop} {p : Parser} (power : Nat), Lasting lx lo I → I p →
    I (read (.expression power) p)
  primary : ∀ {lo : Nat} {I : Parser → Prop} {p : Parser}, Lasting lx lo I → I p → I (read .primary p)
  object : ∀ {lo : Nat} {I : Parser → Prop} {p : Parser}, Lasting lx lo I → I p → p.isAt .leftBrace = true →
    I (read .object p)

/-! ## Lists in brackets -/

/-- A comma is required except before what ends a list. -/
theorem Parser.Clear.separate (h : p.Clear lx was base) (close : ScriptKind) :
    (if p.isAt close then p else p.require .comma).Clear lx was base := by
  split
  · exact h
  · exact h.require rfl

section Rules

variable (hread : Reads lx read)

include hread

theorem readExpression_clear (h : p.Clear lx was base) : (readExpression read p).Clear lx was base :=
  hread.expression _ (.clear lx was base) h

theorem readSpread_clear (h : p.Clear lx was base) (hat : p.isAt .dots = true) :
    (readSpread read p).Clear lx was base :=
  (readExpression_clear hread (h.eatKnown hat rfl)).wrap h.le_mark rfl

theorem readElement_clear (close : ScriptKind) (h : p.Clear lx was base) :
    (readElement read close p).Clear lx was base := by
  have hone : (if p.isAt .dots then readSpread read p else readExpression read p).Clear lx was base := by
    split
    · exact readSpread_clear hread h ‹_›
    · exact readExpression_clear hread h
  unfold readElement
  split
  · exact hone.separate close
  · exact h.unexpected

theorem readElements_shut (h : p.Ready lx) (hat : p.isAt .leftParen = true) (hk : bracketOf? k = some .paren) :
    (readElements read p).Shut lx k p.TooDeep p.nodes.toList :=
  h.closeAt (b := .paren) hat hk
    (Parser.loopUntil_keeps (readElement_clear hread .rightParen) _ (h.check (p.isAt .leftParen)).openBracket)

theorem readArguments_clear (h : p.Ready lx) (hat : p.isAt .leftParen = true) :
    (readArguments read p).Clear lx p.TooDeep p.nodes.toList :=
  (readElements_shut hread h hat (k := .args) rfl).filled.wrap rfl

theorem readArray_clear (h : p.Ready lx) (hat : p.isAt .leftBracket = true) :
    (readArray read p).Clear lx p.TooDeep p.nodes.toList := by
  have hstep : ∀ {q : Parser}, q.Clear lx p.TooDeep (p.nodes.toList ++ [p.current.node]) →
      (if q.isAt .comma then q.eat else readElement read .rightBracket q).Clear lx p.TooDeep
        (p.nodes.toList ++ [p.current.node]) := by
    intro q hq
    split
    · exact hq.eat ‹_› rfl
    · exact readElement_clear hread .rightBracket hq
  have hlist := Parser.loopUntil_keeps hstep [.rightBracket, .endOfTokens] (h.check (p.isAt .leftBracket)).openBracket
  exact (h.closeAt (b := .square) (k := .array) hat rfl hlist).filled.wrap rfl

theorem readIndex_shut (h : p.Ready lx) (hat : p.isAt .leftBracket = true) (hk : bracketOf? k = some .square) :
    (readIndex read p).Shut lx k p.TooDeep p.nodes.toList :=
  h.closeAt (b := .square) hat hk (readExpression_clear hread (h.check (p.isAt .leftBracket)).openBracket)

/-! ## Blocks, functions and objects -/

theorem readStatementOrFault_clear (h : p.Clear lx was base) : (readStatementOrFault read p).Clear lx was base := by
  unfold readStatementOrFault
  split
  · exact hread.statement h
  · exact h.unexpected

theorem readBlock_clear (h : p.Clear lx was base) : (readBlock read p).Clear lx was base := by
  cases hat : p.isAt .leftBrace with
  | true =>
      have hlist := Parser.loopUntil_keeps (readStatementOrFault_clear hread) statementEnd h.ready.openBracket
      simp only [readBlock, Parser.expect_found hat]
      exact h.resume ((h.ready.closeAt (b := .brace) (k := .block) hat rfl hlist).filled.wrap rfl)
  | false =>
      simp only [readBlock, Parser.expect_missing hat (by decide)]
      exact h.expected _

theorem readBinding_clear (h : p.Clear lx was base) : (readBinding read p).Clear lx was base := by
  unfold readBinding
  split
  · exact h.resume (readArray_clear hread h.ready ‹_›)
  · split
    · exact hread.object (.clear lx was base) h ‹_›
    · exact h.require rfl

/-- The value that may be assigned to what was just read. -/
theorem readAssigned_clear (h : p.Clear lx was base) :
    (if p.isAt .assign then readExpression read p.eat else p).Clear lx was base := by
  split
  · exact readExpression_clear hread (h.eat ‹_› rfl)
  · exact h

theorem readParameter_clear (h : p.Clear lx was base) : (readParameter read p).Clear lx was base := by
  have hdots := h.eatIf (k := .dots) rfl
  have hbinding := readBinding_clear hread hdots
  unfold readParameter
  dsimp only
  split
  · exact hdots.unexpected
  · refine Parser.Clear.separate ?_ .rightParen
    split
    · exact hbinding.wrap h.le_mark rfl
    · split
      · exact (readExpression_clear hread (hbinding.eat ‹_› rfl)).wrap h.le_mark rfl
      · exact hbinding

theorem readParameters_here (h : p.Ready lx) (hat : p.isAt .leftParen = true) :
    (readParameters read p).Clear lx p.TooDeep p.nodes.toList := by
  have hlist := Parser.loopUntil_keeps (readParameter_clear hread) [.rightParen, .endOfTokens] h.openBracket
  simp only [readParameters, Parser.expect_found hat]
  exact (h.closeAt (b := .paren) (k := .params) hat rfl hlist).filled.wrap rfl

theorem readParameters_clear (h : p.Clear lx was base) : (readParameters read p).Clear lx was base := by
  cases hat : p.isAt .leftParen with
  | true => exact h.resume (readParameters_here hread h.ready hat)
  | false =>
      simp only [readParameters, Parser.expect_missing hat (by decide)]
      exact h.expected _

theorem readFunctionRest_clear (h : p.Clear lx was base) : (readFunctionRest read p).Clear lx was base :=
  readBlock_clear hread (readParameters_clear hread h)

theorem readArrowBody_clear (h : p.Clear lx was base) : (readArrowBody read p).Clear lx was base := by
  unfold readArrowBody
  split
  · exact readBlock_clear hread h
  · exact readExpression_clear hread h

/-- The key of a property, which may be an index. -/
theorem readKey_filled (h : p.Ready lx) (hstart : p.isAtAny propertyStart = true) :
    (readKey read p).Filled lx .property p.TooDeep p.nodes.toList := by
  obtain ⟨k, hk, hkind⟩ := isAtAny_kind hstart
  have hat := Parser.isAt_of_kind? hkind
  unfold readKey
  split
  · exact (readIndex_shut hread h ‹_› rfl).filled
  split
  · exact .of_clear (h.eatWithKind rfl)
  · rename_i hsquare _
    refine .of_clear (h.eat hat ?_)
    revert hk hat
    cases k <;> first
      | exact fun _ _ => rfl
      | exact fun hk _ => absurd hk (by decide)
      | exact fun _ hat => absurd hat hsquare

theorem readValue_clear (shorthand : Bool) (h : p.Clear lx was base) :
    (readValue read shorthand p).Clear lx was base := by
  unfold readValue
  split
  · have heat := h.eat ‹_› rfl
    dsimp only
    split
    · exact readExpression_clear hread heat
    · exact heat.expected _
  split
  · exact readFunctionRest_clear hread h
  split
  · exact h.expected _
  · exact readAssigned_clear hread h

theorem readProperty_clear (h : p.Clear lx was base) (hstart : p.isAtAny propertyStart = true) :
    (readProperty read p).Clear lx was base := by
  unfold readProperty
  split
  · exact readSpread_clear hread h ‹_›
  · have hkey := readKey_filled hread h.ready hstart
    exact h.resume ((hkey.keep (readValue_clear hread _)).wrap rfl)

theorem readListedProperty_clear (close : ScriptKind) (h : p.Clear lx was base) :
    (readListedProperty read close p).Clear lx was base := by
  unfold readListedProperty
  cases hstart : p.isAtAny propertyStart with
  | true => exact (readProperty_clear hread h hstart).separate close
  | false => exact h.unexpected

theorem readObject_clear (h : p.Ready lx) (hat : p.isAt .leftBrace = true) :
    (readObject read p).Clear lx p.TooDeep p.nodes.toList := by
  have hlist := Parser.loopUntil_keeps (readListedProperty_clear hread .rightBrace) [.rightBrace, .endOfTokens]
    (h.check (p.isAt .leftBrace)).openBracket
  exact (h.closeAt (b := .brace) (k := .object) hat rfl hlist).filled.wrap rfl

/-! ## Statements -/

omit hread in
theorem endStatement_clear (h : p.Clear lx was base) : (endStatement p).Clear lx was base := by
  have hsemicolon := h.eatIf (k := .semicolon) rfl
  unfold endStatement
  dsimp only
  split
  · exact hsemicolon
  · exact hsemicolon.expected _

theorem readDeclarator_clear (h : p.Clear lx was base) : (readDeclarator read p).1.Clear lx was base :=
  (readAssigned_clear hread (readBinding_clear hread h)).eatIf rfl

theorem readDeclaration_clear (h : p.Clear lx was base) (hat : p.isAt k = true) (hk : isBracket k = false) :
    (readDeclaration read p).Clear lx was base :=
  (endStatement_clear (Parser.loop_keeps (readDeclarator_clear hread) (h.eat hat hk))).wrap h.le_mark rfl

theorem readFunction_clear (hmark : base.length ≤ mark) (h : p.Clear lx was base) (hat : p.isAt .functionWord = true) :
    (readFunction read mark p).Clear lx was base := by
  have hname := ((h.eatKnown hat rfl).skip (k := .star) rfl).require (k := .ident) rfl
  exact (readFunctionRest_clear hread hname).wrap hmark rfl

omit hread in
/-- The word of a function is what was seen ahead. -/
theorem Parser.isAt_eat (h : p.nextIs k = true) : p.eat.isAt k = true := by
  unfold Parser.isAt
  rw [show p.eat.current.kind = peekKind p.lexer.rest.length p.lexer from readTrivia_peekKind _ _ _ _ _ _]
  exact h

theorem readCondition_filled (h : p.Filled lx k was base) (hk : bracketOf? k = some .paren) :
    (readCondition read p).Filled lx k was base := by
  cases hat : p.isAt .leftParen with
  | true =>
      have hopen := readExpression_clear hread h.ready.openBracket
      simp only [readCondition, Parser.expect_found hat]
      exact h.shut (h.ready.closeAt (b := .paren) hat hk hopen)
  | false =>
      simp only [readCondition, Parser.expect_missing hat (by decide)]
      exact h.keep fun hp => hp.expected _

theorem readBody_clear (h : p.Clear lx was base) : (readBody read p).Clear lx was base := by
  unfold readBody
  split
  · exact hread.statement h
  · exact h.expected _

theorem readIf_clear (h : p.Clear lx was base) (hat : p.isAt .ifWord = true) : (readIf read p).Clear lx was base := by
  have hword : (p.eatKnown .ifWord).Filled lx .ifStmt p.TooDeep p.nodes.toList := .of_clear (h.ready.eatKnown hat rfl)
  have hbody := (readCondition_filled hread hword rfl).keep (readBody_clear hread)
  have helse := hbody.keep fun hq => hq.eatIf (k := .elseWord) rfl
  refine h.resume (Parser.Filled.wrap ?_ rfl)
  split
  · exact helse.keep (readBody_clear hread)
  · exact helse

theorem readWhile_clear (h : p.Clear lx was base) (hat : p.isAt .whileWord = true) :
    (readWhile read p).Clear lx was base := by
  have hword : p.eat.Filled lx .whileStmt p.TooDeep p.nodes.toList := .of_clear (h.ready.eat hat rfl)
  exact h.resume (((readCondition_filled hread hword rfl).keep (readBody_clear hread)).wrap rfl)

theorem readReturn_clear (h : p.Clear lx was base) (hat : p.isAt .returnWord = true) :
    (readReturn read p).Clear lx was base := by
  have heat := h.eat hat rfl
  refine (endStatement_clear ?_).wrap h.le_mark rfl
  split
  · exact readExpression_clear hread heat
  · exact heat

omit hread in
theorem readJump_clear (h : p.Clear lx was base) (hat : p.isAt k = true) (hk : isBracket k = false) :
    (readJump p).Clear lx was base := by
  have heat := h.eat hat hk
  refine (endStatement_clear ?_).wrap h.le_mark rfl
  split
  · rename_i hlabel
    exact heat.eat (Bool.and_eq_true_iff.mp hlabel).2 rfl
  · exact heat

theorem readExpressionStatement_clear (h : p.Clear lx was base) : (readExpressionStatement read p).Clear lx was base :=
  (endStatement_clear (readExpression_clear hread h)).wrap h.le_mark rfl

/-! ## Imports and exports -/

omit hread in
theorem readSpecifier_clear (h : p.Clear lx was base) : (readSpecifier p).Clear lx was base := by
  have hname := (h.eatWithKind (k := .ident) rfl).eatIf (k := .asWord) rfl
  unfold readSpecifier
  dsimp only
  split
  · exact h.unexpected
  · refine Parser.Clear.separate ?_ .rightBrace
    split
    · exact hname
    · split
      · exact hname.eatWithKind rfl
      · exact hname.require rfl

omit hread in
theorem readSpecifiers_shut (h : p.Ready lx) (hat : p.isAt .leftBrace = true) (hk : bracketOf? k = some .brace) :
    (readSpecifiers p).Shut lx k p.TooDeep p.nodes.toList :=
  h.closeAt (b := .brace) hat hk
    (Parser.loopUntil_keeps readSpecifier_clear statementEnd (h.check (p.isAt .leftBrace)).openBracket)

omit hread in
theorem readImportClause_filled (h : p.Filled lx .importDecl was base) :
    (readImportClause p).1.Filled lx .importDecl was base := by
  unfold readImportClause
  split
  · exact h.keep fun hq => (hq.eat ‹_› rfl).eatIf rfl
  split
  · exact h.keep fun hq => (((hq.eat ‹_› rfl).require rfl).require rfl).eatIf rfl
  split
  · exact (h.shut (readSpecifiers_shut h.ready ‹_› rfl)).keep fun hq => hq.eatIf rfl
  · exact h.keep fun hq => hq.expected _

omit hread in
theorem readImport_clear (h : p.Clear lx was base) (hat : p.isAt .importWord = true) :
    (readImport p).Clear lx was base := by
  have hword : (p.eatKnown .importWord).Filled lx .importDecl p.TooDeep p.nodes.toList :=
    .of_clear (h.ready.eatKnown hat rfl)
  have hbare := hword.keep fun hq => hq.eatIf (k := .str) rfl
  have hclauses := Parser.loop_keeps readImportClause_filled hbare
  refine h.resume (Parser.Filled.wrap (Parser.Filled.keep ?_ endStatement_clear) rfl)
  split
  · exact hbare
  · exact hclauses.keep fun hq => (hq.require rfl).require rfl

omit hread in
theorem readExportList_filled (h : p.Filled lx .exportDecl was base) (hat : p.isAtAny [.leftBrace, .star] = true) :
    (readExportList p).Filled lx .exportDecl was base := by
  have hnames : (if p.isAt .star then
      if (p.eat.eatIf .asWord).2 then (p.eat.eatIf .asWord).1.require .ident else (p.eat.eatIf .asWord).1
      else readSpecifiers p).Filled lx .exportDecl was base := by
    split
    · have hstar : (p.eat.eatIf .asWord).1.Filled lx .exportDecl was base :=
        h.keep fun hq => (hq.eat ‹_› rfl).eatIf rfl
      split
      · exact hstar.keep fun hq => hq.require rfl
      · exact hstar
    · rename_i hstar
      obtain ⟨k, hk, hkind⟩ := isAtAny_kind hat
      have hat := Parser.isAt_of_kind? hkind
      obtain rfl : k = .leftBrace := by
        rcases List.mem_cons.mp hk with rfl | hk
        · rfl
        · exact absurd (List.mem_singleton.mp hk ▸ hat) hstar
      exact h.shut (readSpecifiers_shut h.ready hat rfl)
  have hrest {q : Parser} (hq : q.Filled lx .exportDecl was base) : (endStatement (if (q.eatIf .fromWord).2
      then (q.eatIf .fromWord).1.require .str else (q.eatIf .fromWord).1)).Filled lx .exportDecl was base := by
    have hfrom := hq.keep fun hq => hq.eatIf (k := .fromWord) rfl
    refine Parser.Filled.keep ?_ endStatement_clear
    split
    · exact hfrom.keep fun hq => hq.require rfl
    · exact hfrom
  exact hrest hnames

theorem readExport_clear (h : p.Clear lx was base) (hat : p.isAt .exportWord = true) :
    (readExport read p).Clear lx was base := by
  have hword : (p.eatKnown .exportWord).Filled lx .exportDecl p.TooDeep p.nodes.toList :=
    .of_clear (h.ready.eatKnown hat rfl)
  unfold readExport
  dsimp only
  generalize p.eatKnown .exportWord = q at hword ⊢
  refine h.resume (Parser.Filled.wrap ?_ rfl)
  split
  · exact hword.keep fun hq => endStatement_clear (readExpression_clear hread (hq.eat ‹_› rfl))
  split
  · obtain ⟨k, hk, hkind⟩ := isAtAny_kind ‹_›
    have hbracket : isBracket k = false := (by decide : ∀ k ∈ [ScriptKind.letWord, .constWord, .varWord],
      isBracket k = false) k hk
    exact hword.keep fun hq => readDeclaration_clear hread hq (Parser.isAt_of_kind? hkind) hbracket
  split
  · exact hword.keep fun hq => readFunction_clear hread hq.le_mark hq ‹_›
  split
  · rename_i hasync
    obtain ⟨hat, hnext⟩ := Bool.and_eq_true_iff.mp hasync
    exact hword.keep fun hq => readFunction_clear hread hq.le_mark (hq.eat hat rfl) (Parser.isAt_eat hnext)
  split
  · exact readExportList_filled hword ‹_›
  · exact hword.keep fun hq => hq.expected _

/-! ## Operators -/

variable (last : Lasting lx lo I)

include last

omit hread in
/-- What starts with the current token lasts, whatever follows. -/
theorem Lasting.eat (h : I p) (hat : p.isAt k = true) (hk : isBracket k = false) : I p.eat :=
  last.adds h ((last.ready h).eat hat hk)

omit hread in
/-- Orderly nodes that were added may be wrapped from the lowest mark. -/
theorem Lasting.enclose (h : I p) (hq : q.Clear lx p.TooDeep p.nodes.toList) (hk : isBracket k = false) :
    I (q.wrap lo k) :=
  last.wrap h (Nat.le_refl lo) (last.le_mark h) (.of_clear hq) hk

theorem readIndex_lasts (h : I p) (hq : q.Clear lx p.TooDeep p.nodes.toList) (hat : q.isAt .leftBracket = true) :
    I ((readIndex read q).wrap lo .index) :=
  last.wrap h (Nat.le_refl lo) (last.le_mark h)
    (Parser.Filled.shut (.of_clear hq) (readIndex_shut hread hq.ready hat rfl)) rfl

theorem readChained_lasts (calls : Bool) (h : I p) (hq : q.Clear lx p.TooDeep p.nodes.toList) :
    I (readChained read lo calls q) := by
  unfold readChained
  split
  · rename_i hcall
    exact last.enclose h (hq.resume (readArguments_clear hread hq.ready (Bool.and_eq_true_iff.mp hcall).2)) rfl
  split
  · exact readIndex_lasts hread last h hq ‹_›
  · exact last.enclose h (hq.require rfl) rfl

theorem readSuffix_lasts (calls : Bool) (h : I p) : I (readSuffix read lo calls p).1 := by
  have hready := last.ready h
  have here : p.isAt .leftBracket = true → I ((readIndex read p).wrap lo .index) := fun hat =>
    last.wrap h (Nat.le_refl lo) (last.le_mark h) (readIndex_shut hread hready hat rfl).filled rfl
  unfold readSuffix
  split
  · exact last.enclose h ((hready.eat ‹_› rfl).require rfl) rfl
  split
  · exact readChained_lasts hread last calls h (hready.eat ‹_› rfl)
  split
  · exact h
  split
  · exact here ‹_›
  split
  · exact h
  split
  · exact last.enclose h (readArguments_clear hread hready ‹_›) rfl
  split
  · exact last.enclose h (hready.eat ‹_› rfl) rfl
  split
  · exact last.enclose h (hready.eat ‹_› rfl) rfl
  · exact h

theorem readOperator_lasts (power : Nat) (h : I p) : I (readOperator read lo power p).1 := by
  have hready := last.ready h
  unfold readOperator
  split
  · split
    · exact h
    · exact last.enclose h (readExpression_clear hread (hready.eat (Parser.isAt_of_kind? ‹_›) rfl)) rfl
  · split
    · exact h
    · have hfirst := readExpression_clear hread (hready.eat (Parser.isAt_of_kind? ‹_›) rfl)
      exact last.enclose h (readExpression_clear hread (hfirst.require (k := .colon) rfl)) rfl
  · rename_i kind _ _ hkind
    split
    · exact h
    · rename_i tightness toRight hpower
      split
      · exact h
      · have hbracket : isBracket kind = false := by
          revert hpower
          cases kind <;> first
            | exact fun _ => rfl
            | exact fun hpower => absurd hpower (by simp [binaryPower?])
        have heat := hready.eat (Parser.isAt_of_kind? hkind) hbracket
        exact last.enclose h (hread.expression _ (.clear lx _ _) heat) rfl
  · exact h

theorem readContinuation_lasts (power : Nat) (h : I p) : I (readContinuation read lo power p).1 := by
  have hsuffix := readSuffix_lasts hread last true h
  show I (if (readSuffix read lo true p).2 then ((readSuffix read lo true p).1, true)
    else readOperator read lo power (readSuffix read lo true p).1).1
  split
  · exact hsuffix
  · exact readOperator_lasts hread last power hsuffix

theorem readOperation_lasts (power : Nat) (h : I p) : I (readOperation read power p) := by
  have henter := last.enter h
  have since := last.since (last.le_mark henter)
  have hoperand : I (readOperand read p.enter.1) ∧ p.enter.1.mark ≤ (readOperand read p.enter.1).mark := by
    unfold readOperand
    split
    · obtain ⟨k, hk, hkind⟩ := isAtAny_kind ‹_›
      have hbracket := (by decide : ∀ k ∈ unaryOperator, isBracket k = false) k hk
      have heat := (last.ready henter).eat (Parser.isAt_of_kind? hkind) hbracket
      exact since.enclose ⟨henter, Nat.le_refl _⟩ (hread.expression _ (.clear lx _ _) heat) rfl
    · exact hread.primary since ⟨henter, Nat.le_refl _⟩
  have hloop := Parser.loop_keeps (I := fun q => I q ∧ p.enter.1.mark ≤ q.mark)
    (readContinuation_lasts hread since power) hoperand
  unfold readOperation
  dsimp only
  split
  · exact last.leave hloop.1
  · exact henter

omit last

/-! ## Primary expressions -/

theorem readName_clear (h : p.Ready lx) (hat : p.isAt .ident = true) :
    (readName read p).Clear lx p.TooDeep p.nodes.toList := by
  have heat := h.eat hat rfl
  unfold readName
  dsimp only
  split
  · rename_i harrow
    have hparams : (p.eat.wrap p.mark .params).Clear lx p.TooDeep p.nodes.toList := heat.wrap (Nat.le_refl _) rfl
    have hbody := readArrowBody_clear hread (hparams.eat (k := .arrow) (Bool.and_eq_true_iff.mp harrow).1 rfl)
    exact hbody.wrap (Nat.le_refl _) rfl
  · exact heat

theorem readAsync_clear (h : p.Ready lx) (hat : p.isAt .asyncWord = true) :
    (readAsync read p).Clear lx p.TooDeep p.nodes.toList := by
  have heat := h.eat hat rfl
  unfold readAsync
  dsimp only
  split
  · have hprimary := hread.primary (.clear lx _ _) heat
    split
    · exact hprimary.wrap (Nat.le_refl _) rfl
    · exact hprimary.wrap (Nat.le_refl _) rfl
  · exact heat

theorem readFunctionExpression_clear (h : p.Ready lx) (hat : p.isAt .functionWord = true) :
    (readFunctionExpression read p).Clear lx p.TooDeep p.nodes.toList := by
  have hname := ((h.eat hat rfl).skip (k := .star) rfl).skip (k := .ident) rfl
  exact (readFunctionRest_clear hread hname).wrap (Nat.le_refl _) rfl

theorem readNew_clear (h : p.Ready lx) (hat : p.isAt .newWord = true) :
    (readNew read p).Clear lx p.TooDeep p.nodes.toList := by
  have heat := h.eat hat rfl
  have since := (Lasting.clear lx p.TooDeep p.nodes.toList).since heat.le_mark
  have hprimary := hread.primary since ⟨heat, Nat.le_refl _⟩
  have hcallee : (if p.eat.isAt .newWord then read .primary p.eat
      else (read .primary p.eat).loop (readSuffix read p.eat.mark false)).Clear lx p.TooDeep p.nodes.toList := by
    split
    · exact hprimary.1
    · exact (Parser.loop_keeps (I := fun q => q.Clear lx p.TooDeep p.nodes.toList ∧ p.eat.mark ≤ q.mark)
        (readSuffix_lasts hread since false) hprimary).1
  unfold readNew
  dsimp only
  generalize (if p.eat.isAt .newWord then read .primary p.eat
      else (read .primary p.eat).loop (readSuffix read p.eat.mark false)) = q at hcallee ⊢
  refine Parser.Clear.wrap ?_ (Nat.le_refl _) rfl
  split
  · rename_i hcall
    exact hcallee.resume (readArguments_clear hread hcallee.ready (Bool.and_eq_true_iff.mp hcall).1)
  · exact hcallee

/-- **A group is one orderly branch**, whether it is read once, twice or not at all. -/
theorem readGroup_clear (h : p.Ready lx) (hat : p.isAt .leftParen = true) :
    (readGroup read p).Clear lx p.TooDeep p.nodes.toList := by
  unfold readGroup
  split
  · rename_i group hknown
    exact h.replay (List.mem_of_find?_eq_some hknown)
  · have hgroup := readElements_shut hread h hat (k := .paren) rfl
    dsimp only
    split
    · exact hgroup.filled.wrap rfl
    · -- an arrow follows: the group is read again, as parameters
      obtain ⟨inside, hlater, _⟩ := hgroup
      obtain ⟨hback, hnodes⟩ := h.rewind hlater
      have hparams := readParameters_here hread hback hat
      rw [hnodes] at hparams
      have hbody := readArrowBody_clear hread (hparams.require (k := .arrow) rfl)
      have harrow := (Parser.Filled.of_clear (k := .arrowFunc) hbody).remember rfl p.current.node.start
      exact harrow.weaken hlater.deep

include last

theorem readPrimary_lasts (h : I p) : I (readPrimary read p) := by
  have hready := last.ready h
  unfold readPrimary
  split
  · exact last.adds h (readName_clear hread hready (Parser.isAt_of_kind? ‹_›))
  · exact last.adds h (readAsync_clear hread hready (Parser.isAt_of_kind? ‹_›))
  · exact last.adds h (readGroup_clear hread hready (Parser.isAt_of_kind? ‹_›))
  · exact last.adds h (readArray_clear hread hready (Parser.isAt_of_kind? ‹_›))
  · exact hread.object last h (Parser.isAt_of_kind? ‹_›)
  · exact last.adds h (readFunctionExpression_clear hread hready (Parser.isAt_of_kind? ‹_›))
  · exact last.adds h (readNew_clear hread hready (Parser.isAt_of_kind? ‹_›))
  · exact last.eat h (Parser.isAt_of_kind? ‹_›) rfl
  · exact last.eat h (Parser.isAt_of_kind? ‹_›) rfl
  · exact last.eat h (Parser.isAt_of_kind? ‹_›) rfl
  · exact last.eat h (Parser.isAt_of_kind? ‹_›) rfl
  · exact last.eat h (Parser.isAt_of_kind? ‹_›) rfl
  · exact last.eat h (Parser.isAt_of_kind? ‹_›) rfl
  · exact last.eat h (Parser.isAt_of_kind? ‹_›) rfl
  · exact last.expected _ h

/-! ## Loops -/

theorem readClause_lasts (h : I p) : I (readClause read p) := by
  have hsemicolon : I (p.require .semicolon) := by
    cases hat : p.isAt .semicolon with
    | true =>
        rw [Parser.require, Parser.expect_found hat]
        exact last.eat h hat rfl
    | false =>
        rw [Parser.require, Parser.expect_missing hat (by decide)]
        exact last.expected _ h
  unfold readClause
  dsimp only
  split
  · exact hsemicolon
  · exact hread.expression _ last hsemicolon

theorem readLoopStart_lasts (h : I p) : I (readLoopStart read p) := by
  unfold readLoopStart
  split
  · obtain ⟨k, hk, hkind⟩ := isAtAny_kind ‹_›
    have hbracket := (by decide : ∀ k ∈ [ScriptKind.letWord, .constWord, .varWord], isBracket k = false) k hk
    have heat := (last.ready h).eat (Parser.isAt_of_kind? hkind) hbracket
    exact last.adds h (readAssigned_clear hread (readBinding_clear hread heat))
  split
  · exact h
  · exact hread.expression _ last h

omit hread last in
/-- The head of a loop, behind its parenthesis. -/
def readLoopHead (read : Reader) (p : Parser) : Parser :=
  let p := readLoopStart read p
  if p.isAt .ofWord || p.isAt .inWord then readExpression read p.eat else readClause read (readClause read p)

theorem readLoopHead_lasts (h : I p) : I (readLoopHead read p) := by
  have hstart := readLoopStart_lasts hread last h
  unfold readLoopHead
  dsimp only
  split
  · rename_i hword
    rcases Bool.or_eq_true_iff.mp hword with hat | hat
    · exact hread.expression _ last (last.eat hstart hat rfl)
    · exact hread.expression _ last (last.eat hstart hat rfl)
  · exact readClause_lasts hread last (readClause_lasts hread last hstart)

omit hread last

/-- A parser right behind a token, with white space and comments in between. -/
def Parser.Behind (p : Parser) : Prop :=
  ∃ front o trivia, p.Over True [] (front ++ [o]) trivia ∧ o.isFault = false ∧ ∀ m ∈ trivia, isIdle m.fullText = true

theorem Parser.Ready.behind (h : p.Ready lx) (hat : p.isAt k = true) : p.eat.Behind := by
  refine ⟨p.nodes.toList, p.current.node, p.lexer.skipped, p.over_eatAs _, ?_, idle_skipped p.lexer⟩
  rw [Node.isFault, h.kind_eq hat]
  rfl

/-- The nodes in front of the white space before a token are told by the white space. -/
theorem Parser.Over.unique {whole : Prop} {behind front front' trivia trivia' : List Node}
    (h : p.Over whole behind front trivia) (h' : p.Over whole behind front' trivia') :
    front = front' ∧ trivia = trivia' := by
  have hnodes := h.nodes.symm.trans h'.nodes
  rw [List.append_assoc, List.append_assoc] at hnodes
  exact List.append_inj' (List.append_cancel_left hnodes) (h.trivia_eq.trans h'.trivia_eq.symm)

/-- A loop that finds no parenthesis is bare. -/
theorem Parser.Ready.bareLoop (h : p.Ready lx) (hat : p.isAt .forWord = true)
    (hparen : (p.eat.skip .awaitWord).isAt .leftParen = false) : lx.BareLoop := by
  obtain ⟨read, hfor⟩ := h.token
  have hnext : p.eat.current.ReadFrom lx (p.current.node :: read) p.eat.lexer := hfor.next _
  have hword : p.current.node.isScript .forWord = true := (hfor.isScript _).trans hat
  unfold Parser.skip Parser.eatIf at hparen
  split at hparen
  · rename_i hawait
    have hbehind : p.eat.eat.current.ReadFrom lx (p.eat.current.node :: p.current.node :: read) p.eat.eat.lexer :=
      hnext.next _
    have hsecond : p.eat.current.node.isScript .awaitWord = true := (hnext.isScript _).trans hawait
    refine hbehind.bareLoop ?_
    rw [lacksParen, isScript_kind hsecond, hsecond, (hbehind.isScript _).trans hparen, List.head?_cons, Option.any_some,
      hword]
    rfl
  · rename_i hawait
    refine hnext.bareLoop ?_
    rw [lacksParen, hword, if_pos rfl, (hnext.isScript _).trans hparen,
      (hnext.isScript _).trans (Bool.eq_false_iff.mpr hawait)]
    rfl

include hread

/-- **Without a parenthesis, white space or a comment in front of the loop is said to be unclosed**, or nothing is. -/
theorem readLoopHead_missing {n : Node} (h : p.Clear lx was (base ++ [n])) (hn : isEmptyFault n = false)
    (horderly : Orderly was lx.BareLoop n) (hbehind : p.Behind) (hbare : lx.BareLoop) :
    ((readLoopHead read (p.expected ScriptKind.leftParen.title)).closeAt p.mark .rightParen).Filled lx .forStmt was
      base := by
  obtain ⟨front, o, idle, hover, ho, hidle⟩ := hbehind
  have hlast : (front ++ [o]).getLast?.any Node.isFault = false := by
    rw [List.getLast?_concat, Option.any_some, ho]
  have hexpected := hover.expected ScriptKind.leftParen.title
  rw [expectedAfter, hlast, if_neg Bool.false_ne_true] at hexpected
  obtain ⟨kept, trivia, hover', hrooted, hnodes⟩ := (h.expected ScriptKind.leftParen.title).nodes
  obtain ⟨hfront, rfl⟩ := hover'.unique hexpected
  have hstill : (p.expected ScriptKind.leftParen.title).Past lx (p.expected ScriptKind.leftParen.title).TooDeep
      (base ++ [n] ++ kept) trivia := by
    refine .inl ⟨fun hdeep => hdeep, (h.expected _).ready, hover', ?_⟩
    rw [hfront, List.getLast?_concat]
    rfl
  have hhead := readLoopHead_lasts hread (Lasting.past _ _ _) hstill
  have hclear := (hhead.clear hrooted hnodes).weaken (h.expected _).deep
  -- the mark is that of the last node in front of the loop
  have hmark : ∀ m, (readLoopHead read (p.expected ScriptKind.leftParen.title)).nodes[p.mark]? = some m →
      m.isFault = true ∨ isIdle m.fullText = true ∧ lx.BareLoop := by
    intro m hm
    obtain ⟨rest, hrest⟩ := hhead.nodes
    have hsize : p.mark = (front ++ [o]).length + trivia.length := by
      rw [Parser.mark, hover.size_eq, List.length_nil, Nat.zero_add]
    rw [← Array.getElem?_toList, hrest, hfront, hsize, List.append_assoc, List.append_assoc (front ++ [o]),
      List.getElem?_append_right (Nat.le_add_right _ _), Nat.add_sub_cancel_left, ← List.append_assoc,
      List.getElem?_append_left (by simp)] at hm
    rcases List.mem_append.mp (List.mem_of_getElem? hm) with hm | hm
    · rw [List.mem_singleton.mp hm]
      exact .inl rfl
    · exact .inr ⟨hidle m hm, hbare⟩
  generalize readLoopHead read (p.expected ScriptKind.leftParen.title) = q at hclear hmark
  have hshrunk := hclear.shrink (fun m hm => List.mem_singleton.mp hm ▸ horderly.mono hclear.deep) fun hw => hw
  cases hat : q.isAt .rightParen with
  | true =>
      rw [Parser.closeAt, if_pos hat]
      exact .of_eat hshrunk
  | false =>
      have hlt : base.length < p.mark := by
        have hle := h.le_mark
        rw [List.length_append, List.length_singleton] at hle
        exact hle
      have hclosed := hclear.closeIdle hn hlt (by rw [hat]; exact Bool.false_ne_true) hmark
      exact .of_clear (hclosed.shrink (fun m hm => List.mem_singleton.mp hm ▸ horderly.mono hclosed.deep) fun hw => hw)

theorem readFor_clear (h : p.Clear lx was base) (hat : p.isAt .forWord = true) :
    (readFor read p).Clear lx was base := by
  have hword : (p.eatKnown .forWord).Clear lx p.TooDeep (p.nodes.toList ++ [p.current.node]) :=
    (h.ready.check (p.isAt .forWord)).openBracket
  have horderly {deep : Prop} : Orderly deep lx.BareLoop p.current.node :=
    h.ready.node.orderly (h.ready.kind_eq hat) rfl
  have hawait := hword.skip (k := .awaitWord) rfl
  have hbehind : ((p.eatKnown .forWord).skip .awaitWord).Behind := by
    unfold Parser.skip Parser.eatIf
    split
    · exact hword.ready.behind ‹_›
    · exact (h.ready.check (p.isAt .forWord)).behind hat
  have hhead : ((readLoopHead read (((p.eatKnown .forWord).skip .awaitWord).require .leftParen)).closeAt
      ((p.eatKnown .forWord).skip .awaitWord).mark .rightParen).Filled lx .forStmt p.TooDeep p.nodes.toList := by
    have hbare : ((p.eatKnown .forWord).skip .awaitWord).isAt .leftParen = false → lx.BareLoop :=
      (h.ready.check (p.isAt .forWord)).bareLoop hat
    generalize (p.eatKnown .forWord).skip .awaitWord = q at hawait hbehind hbare
    cases hopen : q.isAt .leftParen with
    | true =>
        have hloop := readLoopHead_lasts hread (.clear lx _ _) hawait.ready.openBracket
        rw [Parser.require, Parser.expect_found hopen]
        exact Parser.Filled.shut (.of_clear (hawait.shrink (fun m hm => List.mem_singleton.mp hm ▸ horderly)
          fun hdeep => hdeep)) (hawait.ready.closeAt (b := .paren) hopen rfl hloop)
    | false =>
        rw [Parser.require, Parser.expect_missing hopen (by decide)]
        exact readLoopHead_missing hread hawait h.ready.node.solid horderly hbehind (hbare hopen)
  exact h.resume ((hhead.keep (readBody_clear hread)).wrap rfl)

theorem readStatementHere_clear (h : p.Clear lx was base) : (readStatementHere read p).Clear lx was base := by
  unfold readStatementHere
  split
  · exact readDeclaration_clear hread h (Parser.isAt_of_kind? ‹_›) rfl
  · exact readDeclaration_clear hread h (Parser.isAt_of_kind? ‹_›) rfl
  · exact readDeclaration_clear hread h (Parser.isAt_of_kind? ‹_›) rfl
  · exact readFunction_clear hread h.le_mark h (Parser.isAt_of_kind? ‹_›)
  · split
    · exact readFunction_clear hread h.le_mark (h.eat (Parser.isAt_of_kind? ‹_›) rfl) (Parser.isAt_eat ‹_›)
    · exact readExpressionStatement_clear hread h
  · exact readReturn_clear hread h (Parser.isAt_of_kind? ‹_›)
  · exact readIf_clear hread h (Parser.isAt_of_kind? ‹_›)
  · exact readFor_clear hread h (Parser.isAt_of_kind? ‹_›)
  · exact readWhile_clear hread h (Parser.isAt_of_kind? ‹_›)
  · exact readJump_clear h (Parser.isAt_of_kind? ‹_›) rfl
  · exact readJump_clear h (Parser.isAt_of_kind? ‹_›) rfl
  · exact readImport_clear h (Parser.isAt_of_kind? ‹_›)
  · exact readExport_clear hread h (Parser.isAt_of_kind? ‹_›)
  · exact readBlock_clear hread h
  · exact h.eat (Parser.isAt_of_kind? ‹_›) rfl
  · exact readExpressionStatement_clear hread h

theorem readStatement_clear (h : p.Clear lx was base) : (readStatement read p).Clear lx was base := by
  have last := Lasting.clear lx was base
  have henter := last.enter h
  unfold readStatement
  dsimp only
  split
  · exact last.leave (readStatementHere_clear hread henter)
  · exact henter

end Rules

/-! ## Goals and entry points -/

/-- **Every goal keeps what lasts**, whatever the fuel. -/
theorem readGoal_reads (lx : Lexer) (fuel : Nat) : Reads lx (readGoal fuel) := by
  induction fuel with
  | zero => exact ⟨fun h => h, fun _ _ h => h, fun _ h => h, fun _ h _ => h⟩
  | succ fuel ih =>
      exact ⟨readStatement_clear ih, fun power last h => readOperation_lasts ih last power h, readPrimary_lasts ih,
        fun last h hat => last.adds h (readObject_clear ih (last.ready h) hat)⟩

/-- A parser that has read quiet nodes only. -/
structure Parser.AllQuiet (lx : Lexer) (p : Parser) : Prop where
  ready : p.Ready lx
  nodes : ∀ n ∈ p.nodes.toList, Quiet p.TooDeep lx.BareLoop n

theorem Parser.AllQuiet.of_clear (h : p.Clear lx was []) : p.AllQuiet lx := by
  obtain ⟨rest, hnodes, horderly⟩ := h.behind
  exact ⟨h.ready, fun n hn => (horderly n (by rwa [hnodes] at hn)).toQuiet⟩

/-- The tokens that are left may be taken as they are. -/
theorem Parser.AllQuiet.eatAll (fuel : Nat) (h : p.AllQuiet lx) : (p.eatAll fuel).AllQuiet lx := by
  induction fuel generalizing p with
  | zero => exact h
  | succ fuel ih =>
      unfold Parser.eatAll
      split
      · exact h
      · refine ih ⟨h.ready.eatAs _, fun n hn => ?_⟩
        rw [show p.eat.nodes.toList = _ from p.eatAs_nodes p.current.node] at hn
        rcases List.mem_append.mp hn with hn | hn
        · rcases List.mem_append.mp hn with hn | hn
          · exact h.nodes n hn
          · exact List.mem_singleton.mp hn ▸ h.ready.node.quiet
        · exact (orderly_skipped _ n hn).toQuiet

theorem Parser.AllQuiet.finish (h : p.AllQuiet lx) (hk : isBracket k = false) :
    (p.finish k).value.Throughout (Opened ((p.finish k).overflow ≠ none) lx.BareLoop) := by
  have hdeep : p.TooDeep → (p.finish k).overflow ≠ none := fun hdeep hnone => by
    unfold Parser.TooDeep at hdeep
    rw [show p.overflow = none from hnone] at hdeep
    exact Bool.noConfusion hdeep
  exact ((Contents.of_quiet h.nodes).branchAt hk p.start).below.mono fun _ hn => hn.mono hdeep

/-- A parser starts with white space and comments only. -/
theorem clear_ofSpan (src : Source) (s : Span) : (Parser.ofSpan src s).Clear (Lexer.ofSpan src s) False [] := by
  have hfrom := readTrivia_readFrom (Lexer.ofSpan src s) s.start (Lexer.ofSpan src s).rest.length 0 #[] 0 false
    (Nat.le_refl _)
  refine ⟨⟨⟨_, hfrom⟩, fun g hg => absurd hg List.not_mem_nil⟩, False.elim, [],
    (Lexer.ofSpan src s).skipped, Parser.over_all rfl ?_, .nil, orderly_skipped _⟩
  exact readTrivia_count _ _ (Lexer.ofSpan src s) #[] 0 false

theorem readEntry_opened (src : Source) (s : Span) (entry : Entry) :
    (readEntry src s entry).value.Throughout
      (Opened ((readEntry src s entry).overflow ≠ none) (Lexer.ofSpan src s).BareLoop) := by
  have hstart := clear_ofSpan src s
  have hread := readGoal_reads (Lexer.ofSpan src s) (goalFuel (Parser.ofSpan src s))
  have hfinish {q : Parser} {k : ScriptKind} (hq : q.Clear (Lexer.ofSpan src s) False []) (hk : isBracket k = false) :
      ((q.eatAll q.budget).finish k).value.Throughout
        (Opened (((q.eatAll q.budget).finish k).overflow ≠ none) (Lexer.ofSpan src s).BareLoop) :=
    ((Parser.AllQuiet.of_clear hq).eatAll _).finish hk
  cases entry with
  | statements => exact hfinish (Parser.loopUntil_keeps (readStatementOrFault_clear hread) _ hstart) rfl
  | expression =>
      refine hfinish (Parser.loopUntil_keeps Parser.Clear.unexpected _ ?_) rfl
      split
      · exact readExpression_clear hread hstart
      · split
        · exact hstart
        · exact hstart.expected _
  | attributes => exact hfinish (Parser.loopUntil_keeps (readListedProperty_clear hread .endOfTokens) _ hstart) rfl

/-- **What a script tree says to be unclosed is an opening bracket that nothing closes**, or white space or a comment if
the script has a loop without a parenthesis.  This holds from any entry point, known or not. -/
theorem readNamed_opened (src : Source) (s : Span) (entry : String) :
    (readNamed src s entry).value.Throughout
      (Opened ((readNamed src s entry).overflow ≠ none) (Lexer.ofSpan src s).BareLoop) := by
  unfold readNamed
  split
  · exact readEntry_opened src s _
  · refine .intro (.silent fun c hc hsays => ?_) fun c hc => ?_
    · obtain rfl := List.mem_singleton.mp hc
      exact absurd (eq_of_beq hsays) (by rw [String.append_assoc]; exact message_ne (by decide))
    · obtain rfl := List.mem_singleton.mp hc
      exact .intro (.silent fun c hc => absurd hc List.not_mem_nil) fun c hc => absurd hc List.not_mem_nil

end ComponentMarkup.Script
