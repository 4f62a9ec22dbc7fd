import ComponentMarkup.Proofs.Script.Behind
import ComponentMarkup.Proofs.Script.Keywords
import ComponentMarkup.Proofs.Script.Limits

/-!
# Reading groups afresh

A script parser that remembers no arrow functions: a group in parentheses is always read as elements and, if an
arrow follows, once more as parameters.  Everything else is read by the same rules.  It is what the parser with a
memory is held against.

The rule for groups then depends only on the token that a parser stands at.  This token depends only on where it
starts, since a lexer is told by its place in the text.

* `readGroupAfresh`, `readGoalAfresh`, `readNamedAfresh` — the parser without a memory;
* `readEntryWith`, `readEntryWith_readGoal` — the entry points, for any way to read goals;
* `Parser.Placed` — a parser at a token of a stretch; `Parser.Placed.token_unique` — which one is told by its place.
-/

namespace ComponentMarkup.Script

open ComponentMarkup.Text ComponentMarkup.Tree

variable {src : Source} {s : Span} {stop : Nat} {p q : Parser} {R : Parser → Parser → Prop} {read : Reader}

/-! ## The parser without a memory -/

/-- A parenthesized expression or, if an arrow follows, an arrow function.  The group is read as elements and, if
an arrow follows, again as parameters.  Nothing is remembered. -/
def readGroupAfresh (read : Reader) (p : Parser) : Parser :=
  let mark := p.mark
  let later := readElements read p
  if !isAtArrow later then later.wrap mark .paren
  else
    let p := (readParameters read (later.rewind p)).require .arrow
    (readArrowBody read p).wrap mark .arrowFunc

/-- A primary expression, without a memory. -/
def readPrimaryAfresh (read : Reader) (p : Parser) : Parser :=
  match p.kind? with
  | some .leftParen => readGroupAfresh read p
  | _ => readPrimary read p

/-- Reads a goal without a memory, going at most `fuel` goals deep. -/
def readGoalAfresh : (fuel : Nat) → Reader
  | 0, _, p => p
  | fuel + 1, .statement, p => readStatement (readGoalAfresh fuel) p
  | fuel + 1, .expression power, p => readOperation (readGoalAfresh fuel) power p
  | fuel + 1, .primary, p => readPrimaryAfresh (readGoalAfresh fuel) p
  | fuel + 1, .object, p => readObject (readGoalAfresh fuel) p

/-- What is read from an entry point before the tokens that are left are taken. -/
def readFrom (reader : Nat → Reader) (entry : Entry) (p : Parser) : Parser :=
  let read := reader (goalFuel p)
  match entry with
  | .statements => p.loopUntil [.endOfTokens] (readStatementOrFault read)
  | .expression =>
    let p :=
      if p.isAtAny expressionStart then readExpression read p
      else if p.atEnd then p
      else p.expected "expression"
    p.loopUntil [.endOfTokens] Parser.unexpected
  | .attributes => p.loopUntil [.endOfTokens] (readListedProperty read .endOfTokens)

/-- The kind of the root over what is read from an entry point. -/
def Entry.root : Entry → ScriptKind
  | statements => .statements
  | expression => .expression
  | attributes => .attributes

/-- Reads a stretch of a text from an entry point with some reader of goals. -/
def readEntryWith (reader : Nat → Reader) (src : Source) (s : Span) (entry : Entry) : Limited Node :=
  let p := readFrom reader entry (.ofSpan src s)
  (p.eatAll p.budget).finish entry.root

/-- The entry points of the grammar are those with the grammar's own reader. -/
theorem readEntryWith_readGoal (src : Source) (s : Span) (entry : Entry) :
    readEntryWith readGoal src s entry = readEntry src s entry := by
  cases entry <;> rfl

/-- Reads a stretch of a text from the entry point of a name, without a memory. -/
def readNamedAfresh (src : Source) (s : Span) (entry : String) : Limited Node :=
  match Entry.ofName? entry with
  | some entry => readEntryWith readGoalAfresh src s entry
  | none => readNamed src s entry

/-- Simulations are kept without a memory as well. -/
theorem readGoalAfresh_related (sim : Simulation R) (fuel : Nat) : Keeps R (readGoalAfresh fuel) := by
  have lock := sim.lockstep
  induction fuel with
  | zero => exact fun _ _ _ h => h
  | succ fuel ih =>
      intro goal p q h
      cases goal with
      | statement => exact readStatement_related sim ih h
      | expression power => exact readOperation_related sim ih power h
      | object => exact (readObject_inStep lock ih.inStep (lock.framing lock.opening)).related h
      | primary =>
          have hlater := (readElements_inStep lock ih.inStep lock.opening).related h
          have hparams := (readParameters_inStep lock ih.inStep).related (sim.rewind hlater h)
          have hbody := (readArrowBody_inStep lock ih.inStep).related
            ((lock.require .arrow).related hparams)
          have hgroup : R (readGroupAfresh (readGoalAfresh fuel) p) (readGroupAfresh (readGoalAfresh fuel) q) :=
            ite_related (congrArg Bool.not (lock.ahead hlater).isAtArrow) (lock.wrap rfl (lock.mark h) hlater)
              (lock.wrap rfl (lock.mark h) hbody)
          show R (readPrimaryAfresh (readGoalAfresh fuel) p) (readPrimaryAfresh (readGoalAfresh fuel) q)
          unfold readPrimaryAfresh
          rw [lock.kind? h]
          split
          · exact hgroup
          · exact readPrimary_related sim ih h

/-! ## Where a parser stands -/

/-- A lexer that holds what stands before and after its place in a text. -/
structure Lexer.Canonical (src : Source) (stop : Nat) (lx : Lexer) : Prop where
  reads : lx.Reads src stop
  before : lx.before = (src.slice 0 lx.place).reverse

/-- A parser at a token of a stretch. -/
structure Parser.Placed (src : Source) (s : Span) (p : Parser) : Prop where
  start_eq : p.start = s.start
  stands : p.current.Stands src s.stop p.lexer
  token : ∃ lx, Lexer.Canonical src s.stop lx ∧ lx.next = (p.current.node, p.lexer)

namespace Lexer.Canonical

theorem ofSpan (hle : s.start ≤ s.stop) (hstop : s.stop ≤ src.size) :
    (Lexer.ofSpan src s).Canonical src s.stop :=
  ⟨⟨hle, hstop, rfl⟩, rfl⟩

/-- The lexers at a place are the same. -/
theorem unique {lx lx' : Lexer} (h : lx.Canonical src stop) (h' : lx'.Canonical src stop)
    (hplace : lx.place = lx'.place) : lx = lx' := by
  have hbefore := h.before
  have hrest := h.reads.rest
  rw [hplace, ← h'.before] at hbefore
  rw [hplace, ← h'.reads.rest] at hrest
  cases lx
  cases lx'
  simp_all

/-- The lexer behind a token holds what stands before and after its place, too. -/
theorem next {lx : Lexer} (h : lx.Canonical src stop) : lx.next.2.Canonical src stop := by
  have hcut := h.reads.next
  refine ⟨hcut.reads, ?_⟩
  have hplace : lx.place ≤ lx.next.2.place := by
    have hle := hcut.fits.le
    rw [hcut.start_eq, hcut.stop_eq] at hle
    exact hle
  have htext : lx.next.1.text.toList = src.slice lx.place lx.next.2.place := by
    cases hrest : lx.rest with
    | nil =>
        rw [Lexer.next_nil hrest, src.slice_self]
        rfl
    | cons c cs =>
        obtain ⟨hlexer, htext, _⟩ := Lexer.next_cons hrest
        have hend := hcut.reads.le
        rw [hlexer] at hend
        rw [htext, hlexer, String.toList_ofList, h.reads.rest]
        exact src.slice_take hend
  rw [Lexer.before_next, htext, h.before, ← List.reverse_append, src.slice_append (Nat.zero_le _) hplace]

/-- The next token follows a place at which some lexer stands. -/
theorem readTrivia {lx : Lexer} (h : lx.Canonical src stop) (previousStop fuel : Nat) (nodes : Array Node)
    (count : Nat) (newline : Bool) :
    ∃ lx', Lexer.Canonical src stop lx' ∧
      lx'.next = ((readTrivia previousStop fuel lx nodes count newline).1.node,
        (readTrivia previousStop fuel lx nodes count newline).2.1) := by
  induction fuel generalizing lx nodes count newline with
  | zero => exact ⟨lx, h, rfl⟩
  | succ fuel ih =>
      rw [readTrivia_succ]
      split
      · exact ih h.next _ _ _
      · exact ⟨lx, h, rfl⟩

end Lexer.Canonical

namespace Parser.Placed

theorem ofSpan (hle : s.start ≤ s.stop) (hstop : s.stop ≤ src.size) :
    (Parser.ofSpan src s).Placed src s := by
  have hlexer : (Lexer.ofSpan src s).Canonical src s.stop := .ofSpan hle hstop
  obtain ⟨more, hmore⟩ := readCurrent_spec #[] hlexer.reads
  exact ⟨rfl, hmore.stands, hlexer.readTrivia _ _ _ _ _⟩

theorem canonical (h : p.Placed src s) : p.lexer.Canonical src s.stop := by
  obtain ⟨lx, hlx, hnext⟩ := h.token
  have hlexer := hlx.next
  rwa [hnext] at hlexer

/-- Where a parser stands is told by its token and its lexer. -/
theorem congr (h : p.Placed src s) (hstart : q.start = p.start) (hcurrent : q.current = p.current)
    (hlexer : q.lexer = p.lexer) : q.Placed src s := by
  refine ⟨hstart.trans h.start_eq, ?_, ?_⟩
  · rw [hcurrent, hlexer]
    exact h.stands
  · rw [hcurrent, hlexer]
    exact h.token

theorem eatAs (h : p.Placed src s) (node : Node) : (p.eatAs node).Placed src s := by
  obtain ⟨more, hmore⟩ := readCurrent_spec (p.nodes.push node) h.canonical.reads
  exact ⟨h.start_eq, hmore.stands, h.canonical.readTrivia _ _ _ _ _⟩

theorem remaining_eatAs (h : p.Placed src s) (node : Node) : (p.eatAs node).remaining ≤ p.remaining - 1 :=
  Parser.remaining_eatAs h.canonical.reads h.stands node

/-- **Parsers that stand at one place of a stretch stand at the same token.** -/
theorem token_unique (h : p.Placed src s) (h' : q.Placed src s)
    (hplace : p.current.node.start = q.current.node.start) :
    p.current.node = q.current.node ∧ p.current.kind = q.current.kind ∧ p.lexer = q.lexer := by
  obtain ⟨lx, hlx, hnext⟩ := h.token
  obtain ⟨lx', hlx', hnext'⟩ := h'.token
  have hstart := hlx.reads.next.start_eq
  have hstart' := hlx'.reads.next.start_eq
  rw [hnext] at hstart
  rw [hnext'] at hstart'
  obtain rfl := hlx.unique hlx' (hstart.symm.trans (hplace.trans hstart'))
  obtain ⟨hnode, hlexer⟩ := Prod.mk.inj (hnext.symm.trans hnext')
  refine ⟨hnode, ?_, hlexer⟩
  rw [h.stands.kind_eq, h'.stands.kind_eq, hnode]

/-- A token of a kind that a character starts is firm. -/
theorem firm (h : p.Placed src s) {k : ScriptKind} (hk : k ≠ .endOfTokens) (hat : p.isAt k = true) :
    Firm p.current.node := by
  have hkind : p.current.kind = .script k := eq_of_beq hat
  have htext := h.stands.has_text (by rw [hkind]; exact fun h => hk (Kind.script.inj h))
  refine ⟨?_, fun hfault => absurd hfault ?_⟩
  · rw [h.stands.fits.length_fullText]
    omega
  · unfold Node.isFault
    rw [← h.stands.kind_eq, hkind]
    simp

end Parser.Placed

end ComponentMarkup.Script
