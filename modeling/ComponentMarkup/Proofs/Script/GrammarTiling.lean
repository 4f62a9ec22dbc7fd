import ComponentMarkup.Proofs.Script.ParserTiling
import ComponentMarkup.Script.Grammar

/-!
# Script trees tile the text

Every rule of the script grammar keeps the invariant of the parser, whatever tokens it meets.  A rule gets
a reader for the goals it refers to; it is enough that this reader keeps the invariant.  A branch always
starts at a mark that was set while the rule ran, so it lies behind the base.

The rule for groups in parentheses is the only one that looks behind itself.  It may read its group twice and
may take a group that was read before, so the nodes up to and including the opening parenthesis serve it as
a base.

* `Careful` — a reader that keeps the invariant; the lemma about a rule is named for it and says that the rule
  keeps the invariant if its reader does;
* `readGoal_sound` — every goal keeps the invariant, with any amount of fuel;
* `readNamed_fits` — the root of a script covers its stretch, from any entry point.
-/

namespace ComponentMarkup.Script

open ComponentMarkup.Text ComponentMarkup.Tree

variable {src : Source} {s : Span} {base : List Node} {p : Parser} {read : Reader}

/-- A reader that keeps the invariant of the parser, for any goal and any base. -/
def Careful (src : Source) (s : Span) (read : Reader) : Prop :=
  ∀ (goal : Goal) {base : List Node} {p : Parser},
    p.Sound src s base → (read goal p).Sound src s base

/-! ## Choices -/

/-- A choice between two ways to go on. -/
theorem Parser.Sound.ite {c : Prop} [Decidable c] {q : Parser} (hp : p.Sound src s base)
    (hq : q.Sound src s base) : (if c then p else q).Sound src s base := by
  split
  · exact hp
  · exact hq

/-- A comma is required except before the bracket that ends a list. -/
theorem Parser.Sound.separate (h : p.Sound src s base) (close : ScriptKind) :
    (if p.isAt close then p else p.require .comma).Sound src s base :=
  h.ite (h.require .comma)

/-- A token is of the kind that it is seen as. -/
theorem Parser.isAt_of_kind? {k : ScriptKind} (h : p.kind? = some k) : p.isAt k := by
  unfold Parser.kind? Kind.script? at h
  unfold Parser.isAt
  split at h <;> simp_all

theorem isAtAny_kind {ks : List ScriptKind} (h : p.isAtAny ks = true) : ∃ k ∈ ks, p.kind? = some k := by
  unfold Parser.isAtAny at h
  cases hk : p.kind? with
  | none =>
      rw [hk] at h
      exact Bool.noConfusion h
  | some k =>
      rw [hk, Option.any_some] at h
      exact ⟨k, List.mem_of_elem_eq_true h, rfl⟩

/-! ## Lists in brackets -/

section Rules

variable (hread : Careful src s read)

include hread

theorem readSpread_sound (h : p.Sound src s base) : (readSpread read p).Sound src s base :=
  (hread _ (h.eatKnown .dots)).wrap h.le_mark .spread

theorem readElement_sound (close : ScriptKind) (h : p.Sound src s base) :
    (readElement read close p).Sound src s base := by
  have helement : (if p.isAt .dots then readSpread read p else readExpression read p).Sound
      src s base := (readSpread_sound hread h).ite (hread _ h)
  exact (helement.separate close).ite h.unexpected

theorem readElements_sound (h : p.Sound src s base) : (readElements read p).Sound src s base := by
  have hlist := (h.eatKnown .leftParen).loopUntil
    (fun _ hq => readElement_sound hread .rightParen hq) [.rightParen, .endOfTokens]
  exact hlist.closeAt h.le_mark .rightParen

theorem readArguments_sound (h : p.Sound src s base) : (readArguments read p).Sound src s base :=
  (readElements_sound hread h).wrap h.le_mark .args

theorem readArray_sound (h : p.Sound src s base) : (readArray read p).Sound src s base := by
  have hstep : ∀ q : Parser, q.Sound src s base →
      (if q.isAt .comma then q.eat else readElement read .rightBracket q).Sound src s base :=
    fun _ hq => hq.eat.ite (readElement_sound hread .rightBracket hq)
  have hlist := (h.eatKnown .leftBracket).loopUntil hstep [.rightBracket, .endOfTokens]
  exact (hlist.closeAt h.le_mark .rightBracket).wrap h.le_mark .array

theorem readIndex_sound (h : p.Sound src s base) : (readIndex read p).Sound src s base :=
  (hread _ (h.eatKnown .leftBracket)).closeAt h.le_mark .rightBracket

/-! ## Blocks, functions and objects -/

theorem readStatementOrFault_sound (h : p.Sound src s base) :
    (readStatementOrFault read p).Sound src s base :=
  (hread _ h).ite h.unexpected

theorem readBlock_sound (h : p.Sound src s base) : (readBlock read p).Sound src s base := by
  have hopen := h.expect .leftBrace
  have hlist := hopen.loopUntil (fun _ hq => readStatementOrFault_sound hread hq) statementEnd
  exact hopen.ite ((hlist.closeAt h.le_mark .rightBrace).wrap h.le_mark .block)

theorem readBinding_sound (h : p.Sound src s base) : (readBinding read p).Sound src s base :=
  (readArray_sound hread h).ite ((hread _ h).ite (h.require .ident))

theorem readAssigned_sound (h : p.Sound src s base) :
    (if p.isAt .assign then readExpression read p.eat else p).Sound src s base :=
  (hread _ h.eat).ite h

theorem readParameter_sound (h : p.Sound src s base) : (readParameter read p).Sound src s base := by
  have hdots := h.eatIf .dots
  have hbinding := readBinding_sound hread hdots
  have hspread := hbinding.wrap h.le_mark .spread
  have hdefault := (hread (.expression assignPower) hbinding.eat).wrap h.le_mark .assignment
  have hparameter := hspread.ite (c := (p.eatIf .dots).2)
    (hdefault.ite (c := (readBinding read (p.eatIf .dots).1).isAt .assign) hbinding)
  exact hdots.unexpected.ite (hparameter.separate .rightParen)

theorem readParameters_sound (h : p.Sound src s base) : (readParameters read p).Sound src s base := by
  have hopen := h.expect .leftParen
  have hlist := hopen.loopUntil (fun _ hq => readParameter_sound hread hq) [.rightParen, .endOfTokens]
  exact hopen.ite ((hlist.closeAt h.le_mark .rightParen).wrap h.le_mark .params)

theorem readFunctionRest_sound (h : p.Sound src s base) :
    (readFunctionRest read p).Sound src s base :=
  readBlock_sound hread (readParameters_sound hread h)

theorem readArrowBody_sound (h : p.Sound src s base) : (readArrowBody read p).Sound src s base :=
  (readBlock_sound hread h).ite (hread _ h)

theorem readKey_sound (h : p.Sound src s base) : (readKey read p).Sound src s base :=
  (readIndex_sound hread h).ite ((h.eatWithKind .ident).ite h.eat)

theorem readValue_sound (shorthand : Bool) (h : p.Sound src s base) :
    (readValue read shorthand p).Sound src s base := by
  have hvalue : (if p.eat.isAtAny expressionStart then readExpression read p.eat
      else p.eat.expected "expression").Sound src s base :=
    (hread _ h.eat).ite (h.eat.expected _)
  exact hvalue.ite ((readFunctionRest_sound hread h).ite
    ((h.expected _).ite (readAssigned_sound hread h)))

theorem readProperty_sound (h : p.Sound src s base) : (readProperty read p).Sound src s base := by
  have hvalue := readValue_sound hread (p.isAt .ident) (readKey_sound hread h)
  exact (readSpread_sound hread h).ite (hvalue.wrap h.le_mark .property)

theorem readListedProperty_sound (close : ScriptKind) (h : p.Sound src s base) :
    (readListedProperty read close p).Sound src s base :=
  h.unexpected.ite ((readProperty_sound hread h).separate close)

theorem readObject_sound (h : p.Sound src s base) : (readObject read p).Sound src s base := by
  have hlist := (h.eatKnown .leftBrace).loopUntil
    (fun _ hq => readListedProperty_sound hread .rightBrace hq) [.rightBrace, .endOfTokens]
  exact (hlist.closeAt h.le_mark .rightBrace).wrap h.le_mark .object

/-! ## Statements -/

omit hread in
theorem endStatement_sound (h : p.Sound src s base) : (endStatement p).Sound src s base := by
  have hsemicolon := h.eatIf .semicolon
  exact hsemicolon.ite (hsemicolon.expected _)

theorem readDeclarator_sound (h : p.Sound src s base) :
    (readDeclarator read p).1.Sound src s base :=
  (readAssigned_sound hread (readBinding_sound hread h)).eatIf .comma

theorem readDeclaration_sound (h : p.Sound src s base) :
    (readDeclaration read p).Sound src s base := by
  have hlist := h.eat.loop (fun _ hq => readDeclarator_sound hread hq)
  exact (endStatement_sound hlist).wrap h.le_mark .varDecl

theorem readFunction_sound {mark : Nat} (hmark : base.length ≤ mark) (h : p.Sound src s base) :
    (readFunction read mark p).Sound src s base := by
  have hname := ((h.eatKnown .functionWord).skip .star).require .ident
  exact (readFunctionRest_sound hread hname).wrap hmark .funcDecl

theorem readCondition_sound (h : p.Sound src s base) : (readCondition read p).Sound src s base := by
  have hopen := h.expect .leftParen
  exact ((hread _ hopen).closeAt h.le_mark .rightParen).ite hopen

theorem readBody_sound (h : p.Sound src s base) : (readBody read p).Sound src s base :=
  (hread _ h).ite (h.expected _)

theorem readIf_sound (h : p.Sound src s base) : (readIf read p).Sound src s base := by
  have hbody := readBody_sound hread (readCondition_sound hread (h.eatKnown .ifWord))
  have helse := hbody.eatIf .elseWord
  exact ((readBody_sound hread helse).ite helse).wrap h.le_mark .ifStmt

theorem readClause_sound (h : p.Sound src s base) : (readClause read p).Sound src s base := by
  have hsemicolon := h.require .semicolon
  exact hsemicolon.ite (hread _ hsemicolon)

theorem readLoopStart_sound (h : p.Sound src s base) : (readLoopStart read p).Sound src s base := by
  have hdeclared := readAssigned_sound hread (readBinding_sound hread h.eat)
  exact hdeclared.ite (h.ite (hread _ h))

theorem readFor_sound (h : p.Sound src s base) : (readFor read p).Sound src s base := by
  have hword := (h.eatKnown .forWord).skip .awaitWord
  have hstart := readLoopStart_sound hread (hword.require .leftParen)
  have hhead := (hread (.expression assignPower) hstart.eat).ite
    (c := (readLoopStart read (((p.eatKnown .forWord).skip .awaitWord).require .leftParen)).isAt
      .ofWord || (readLoopStart read (((p.eatKnown .forWord).skip .awaitWord).require
        .leftParen)).isAt .inWord)
    (readClause_sound hread (readClause_sound hread hstart))
  exact (readBody_sound hread (hhead.closeAt hword.le_mark .rightParen)).wrap h.le_mark .forStmt

theorem readWhile_sound (h : p.Sound src s base) : (readWhile read p).Sound src s base :=
  (readBody_sound hread (readCondition_sound hread h.eat)).wrap h.le_mark .whileStmt

theorem readReturn_sound (h : p.Sound src s base) : (readReturn read p).Sound src s base :=
  (endStatement_sound ((hread _ h.eat).ite h.eat)).wrap h.le_mark .returnStmt

omit hread in
theorem readJump_sound (h : p.Sound src s base) : (readJump p).Sound src s base :=
  (endStatement_sound (h.eat.eat.ite h.eat)).wrap h.le_mark .jumpStmt

/-! ## Imports and exports -/

omit hread in
theorem readSpecifier_sound (h : p.Sound src s base) : (readSpecifier p).Sound src s base := by
  have hname := (h.eatWithKind .ident).eatIf .asWord
  have hrenamed := hname.ite (c := !((p.eatWithKind .ident).eatIf .asWord).2)
    ((hname.eatWithKind .ident).ite (c := ((p.eatWithKind .ident).eatIf .asWord).1.isAtAny
      Parser.reserved) (hname.require .ident))
  exact h.unexpected.ite (hrenamed.separate .rightBrace)

omit hread in
theorem readSpecifiers_sound (h : p.Sound src s base) : (readSpecifiers p).Sound src s base := by
  have hlist := (h.eatKnown .leftBrace).loopUntil (fun _ hq => readSpecifier_sound hq) statementEnd
  exact hlist.closeAt h.le_mark .rightBrace

omit hread in
theorem readImportClause_sound (h : p.Sound src s base) :
    (readImportClause p).1.Sound src s base := by
  unfold readImportClause
  split
  · exact h.eat.eatIf .comma
  · split
    · exact ((h.eat.require .asWord).require .ident).eatIf .comma
    · split
      · exact (readSpecifiers_sound h).eatIf .comma
      · exact h.expected _

omit hread in
theorem readImport_sound (h : p.Sound src s base) : (readImport p).Sound src s base := by
  have hbare := (h.eatKnown .importWord).eatIf .str
  have hclauses := hbare.loop (fun _ hq => readImportClause_sound hq)
  have hfrom := (hclauses.require .fromWord).require .str
  exact (endStatement_sound (hbare.ite hfrom)).wrap h.le_mark .importDecl

omit hread in
theorem readExportList_sound (h : p.Sound src s base) : (readExportList p).Sound src s base := by
  have hstar := h.eat.eatIf .asWord
  have hnames : (if p.isAt .star then
      if (p.eat.eatIf .asWord).2 then (p.eat.eatIf .asWord).1.require .ident
        else (p.eat.eatIf .asWord).1
      else readSpecifiers p).Sound src s base :=
    ((hstar.require .ident).ite hstar).ite (readSpecifiers_sound h)
  have hfrom := hnames.eatIf .fromWord
  exact endStatement_sound ((hfrom.require .str).ite hfrom)

theorem readExport_sound (h : p.Sound src s base) : (readExport read p).Sound src s base := by
  have hword := h.eatKnown .exportWord
  have hdefault := endStatement_sound (hread (.expression assignPower) hword.eat)
  have hfunction := readFunction_sound hread hword.le_mark hword
  have hasync := readFunction_sound hread hword.le_mark hword.eat
  have hrest := (readExportList_sound hword).ite
    (c := (p.eatKnown .exportWord).isAtAny [.leftBrace, .star])
    (hword.expected "declaration or export list")
  exact (hdefault.ite ((readDeclaration_sound hread hword).ite
    (hfunction.ite (hasync.ite hrest)))).wrap h.le_mark .exportDecl

theorem readExpressionStatement_sound (h : p.Sound src s base) :
    (readExpressionStatement read p).Sound src s base :=
  (endStatement_sound (hread _ h)).wrap h.le_mark .exprStmt

theorem readStatementHere_sound (h : p.Sound src s base) :
    (readStatementHere read p).Sound src s base := by
  unfold readStatementHere
  split
  · exact readDeclaration_sound hread h
  · exact readDeclaration_sound hread h
  · exact readDeclaration_sound hread h
  · exact readFunction_sound hread h.le_mark h
  · exact (readFunction_sound hread h.le_mark h.eat).ite (readExpressionStatement_sound hread h)
  · exact readReturn_sound hread h
  · exact readIf_sound hread h
  · exact readFor_sound hread h
  · exact readWhile_sound hread h
  · exact readJump_sound h
  · exact readJump_sound h
  · exact readImport_sound h
  · exact readExport_sound hread h
  · exact readBlock_sound hread h
  · exact h.eat
  · exact readExpressionStatement_sound hread h

theorem readStatement_sound (h : p.Sound src s base) : (readStatement read p).Sound src s base :=
  (readStatementHere_sound hread h.enter).leave.ite h.enter

/-! ## Expressions -/

theorem readChained_sound {mark : Nat} (calls : Bool) (hmark : base.length ≤ mark)
    (h : p.Sound src s base) : (readChained read mark calls p).Sound src s base := by
  have hcall := (readArguments_sound hread h).wrap hmark .call
  have hindex := (readIndex_sound hread h).wrap hmark .index
  exact hcall.ite (hindex.ite ((h.require .ident).wrap hmark .member))

theorem readSuffix_sound {mark : Nat} (calls : Bool) (hmark : base.length ≤ mark)
    (h : p.Sound src s base) : (readSuffix read mark calls p).1.Sound src s base := by
  unfold readSuffix
  split
  · exact (h.eat.require .ident).wrap hmark .member
  split
  · exact readChained_sound hread calls hmark h.eat
  split
  · exact h
  split
  · exact (readIndex_sound hread h).wrap hmark .index
  split
  · exact h
  split
  · exact (readArguments_sound hread h).wrap hmark .call
  split
  · exact h.eat.wrap hmark .call
  split
  · exact h.eat.wrap hmark .postfixExpr
  · exact h

theorem readOperator_sound {mark power : Nat} (hmark : base.length ≤ mark)
    (h : p.Sound src s base) : (readOperator read mark power p).1.Sound src s base := by
  unfold readOperator
  split
  · split
    · exact h
    · exact (hread _ h.eat).wrap hmark .assignment
  · split
    · exact h
    · exact (hread _ ((hread _ h.eat).require .colon)).wrap hmark .ternary
  · split
    · exact h
    · split
      · exact h
      · exact (hread _ h.eat).wrap hmark .binary
  · exact h

theorem readContinuation_sound {mark : Nat} (power : Nat) (hmark : base.length ≤ mark)
    (h : p.Sound src s base) : (readContinuation read mark power p).1.Sound src s base := by
  have hsuffix := readSuffix_sound hread true hmark h
  show (if (readSuffix read mark true p).2 then ((readSuffix read mark true p).1, true)
    else readOperator read mark power (readSuffix read mark true p).1).1.Sound src s base
  split
  · exact hsuffix
  · exact readOperator_sound hread hmark hsuffix

theorem readOperand_sound (h : p.Sound src s base) : (readOperand read p).Sound src s base :=
  ((hread _ h.eat).wrap h.le_mark .unary).ite (hread _ h)

theorem readOperation_sound (power : Nat) (h : p.Sound src s base) :
    (readOperation read power p).Sound src s base := by
  have hmark := h.enter.le_mark
  have hsteps := (readOperand_sound hread h.enter).loop
    (fun _ hq => readContinuation_sound hread power hmark hq)
  exact hsteps.leave.ite h.enter

theorem readName_sound (h : p.Sound src s base) : (readName read p).Sound src s base := by
  have harrow := (h.eat.wrap h.le_mark .params).eat
  exact ((readArrowBody_sound hread harrow).wrap h.le_mark .arrowFunc).ite h.eat

theorem readAsync_sound (h : p.Sound src s base) : (readAsync read p).Sound src s base :=
  ((hread _ h.eat).wrap h.le_mark _).ite h.eat

theorem readFunctionExpression_sound (h : p.Sound src s base) :
    (readFunctionExpression read p).Sound src s base :=
  (readFunctionRest_sound hread ((h.eat.skip .star).skip .ident)).wrap h.le_mark .funcExpr

theorem readNew_sound (h : p.Sound src s base) : (readNew read p).Sound src s base := by
  have hprimary := hread .primary h.eat
  have hcallee := hprimary.ite (c := p.eat.isAt .newWord) (hprimary.loop
    (fun _ hq => readSuffix_sound hread false h.eat.le_mark hq))
  exact ((readArguments_sound hread hcallee).ite hcallee).wrap h.le_mark .newExpr

/-! ## Groups in parentheses -/

omit hread in
/-- Everything up to and including an opening parenthesis can be the base of what follows. -/
theorem Parser.Sound.open_base (h : p.Sound src s base) (hopen : p.isAt .leftParen) :
    p.eat.Sound src s (p.nodes.toList ++ [p.current.node]) := by
  refine h.eatAs_base h.stands.fits rfl (h.stands.has_text ?_)
  rw [eq_of_beq hopen]
  exact fun hend => by cases hend

/-- The elements of a group leave alone what stands in front of it. -/
theorem readElements_base (h : p.Sound src s base) (hopen : p.isAt .leftParen) :
    ∃ n, (readElements read p).Sound src s (p.nodes.toList ++ [n]) := by
  have hparen : (p.eatKnown .leftParen).Sound src s (p.nodes.toList ++ [p.current.node]) :=
    (h.check (p.isAt .leftParen)).open_base hopen
  have hlist := hparen.loopUntil
    (fun _ hq => readElement_sound hread .rightParen hq) [.rightParen, .endOfTokens]
  exact hlist.closeAt_base .rightParen

/-- The parameters of an arrow function become a single node behind what stands in front of them. -/
theorem readParameters_base (h : p.Sound src s base) (hopen : p.isAt .leftParen) :
    ∃ n, (readParameters read p).Sound src s (p.nodes.toList ++ [n]) := by
  have hlist := (h.open_base hopen).loopUntil
    (fun _ hq => readParameter_sound hread hq) [.rightParen, .endOfTokens]
  obtain ⟨n, hclosed⟩ := hlist.closeAt_base .rightParen
  have hexpect : p.expect .leftParen = (p.eat, true) := by
    rw [Parser.expect, if_pos hopen]
  simp only [readParameters, hexpect]
  exact hclosed.wrap_base .params

/-- A group in parentheses keeps the invariant, whether it is read once, twice or not at all. -/
theorem readGroup_sound (h : p.Sound src s base) (hopen : p.isAt .leftParen) :
    (readGroup read p).Sound src s base := by
  unfold readGroup
  split
  · rename_i group hknown
    exact h.replay hknown
  · obtain ⟨n, hlater⟩ := readElements_base hread h hopen
    have hback := h.rewind hlater
    have hnodes := Parser.Sound.rewind_nodes hlater
    dsimp only
    split
    · exact (readElements_sound hread h).wrap h.le_mark .paren
    · -- an arrow follows: the group is read again, as parameters
      obtain ⟨m, hparams⟩ := readParameters_base hread hback hopen
      rw [hnodes] at hparams
      obtain ⟨k, harrow⟩ := (readArrowBody_sound hread (hparams.require .arrow)).wrap_base .arrowFunc
      have hwhole := (readArrowBody_sound hread ((readParameters_sound hread hback).require
        .arrow)).wrap h.le_mark .arrowFunc
      exact h.remember harrow.nodes hwhole

theorem readPrimary_sound (h : p.Sound src s base) : (readPrimary read p).Sound src s base := by
  unfold readPrimary
  split
  · exact readName_sound hread h
  · exact readAsync_sound hread h
  · rename_i hkind
    exact readGroup_sound hread h (Parser.isAt_of_kind? hkind)
  · exact readArray_sound hread h
  · exact hread _ h
  · exact readFunctionExpression_sound hread h
  · exact readNew_sound hread h
  · exact h.eat
  · exact h.eat
  · exact h.eat
  · exact h.eat
  · exact h.eat
  · exact h.eat
  · exact h.eat
  · exact h.expected _

end Rules

/-! ## Goals and entry points -/

/-- **Every goal keeps the invariant**, whatever the fuel. -/
theorem readGoal_sound (fuel : Nat) : Careful src s (readGoal fuel) := by
  induction fuel with
  | zero => exact fun _ _ _ h => h
  | succ fuel ih =>
      intro goal base p h
      cases goal with
      | statement => exact readStatement_sound ih h
      | expression power => exact readOperation_sound ih power h
      | primary => exact readPrimary_sound ih h
      | object => exact readObject_sound ih h

theorem readScript_sound (h : p.Sound src s base) : (readScript p).Sound src s base :=
  h.loopUntil (fun _ hq => readStatementOrFault_sound (readGoal_sound _) hq) [.endOfTokens]

theorem readSoleExpression_sound (h : p.Sound src s base) :
    (readSoleExpression p).Sound src s base := by
  have hfirst := (readGoal_sound (goalFuel p) (.expression assignPower) h).ite
    (c := p.isAtAny expressionStart) (h.ite (c := p.atEnd) (h.expected "expression"))
  exact hfirst.loopUntil (fun _ hq => hq.unexpected) [.endOfTokens]

theorem readAttributes_sound (h : p.Sound src s base) : (readAttributes p).Sound src s base :=
  h.loopUntil (fun _ hq => readListedProperty_sound (readGoal_sound _) .endOfTokens hq)
    [.endOfTokens]

/-- The root read from an entry point covers the stretch. -/
theorem readEntry_fits (entry : Entry) (hle : s.start ≤ s.stop) (hstop : s.stop ≤ src.size) :
    (readEntry src s entry).value.Fits src ∧ (readEntry src s entry).value.span = s := by
  have hstart := Parser.Sound.ofSpan hle hstop
  cases entry with
  | statements => exact (readScript_sound hstart).finish .statements
  | expression => exact (readSoleExpression_sound hstart).finish .expression
  | attributes => exact (readAttributes_sound hstart).finish .attributes

/-- **A script tree covers its stretch**, from any entry point, known or not, and whatever the text. -/
theorem readNamed_fits (entry : String) (hle : s.start ≤ s.stop) (hstop : s.stop ≤ src.size) :
    (readNamed src s entry).value.Fits src ∧ (readNamed src s entry).value.span = s := by
  unfold readNamed
  split
  · exact readEntry_fits _ hle hstop
  · have hrun : Run src.Holds s.start s.stop
        [.fault ("unknown script entry point `" ++ entry ++ "`") [] (src.text s) s] :=
      Run.single (.fault (src.holds_text hle hstop))
    exact ⟨hrun.branch _ (List.cons_ne_nil _ _), hrun.branch_span _ (List.cons_ne_nil _ _)⟩

end ComponentMarkup.Script
