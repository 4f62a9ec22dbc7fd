import ComponentMarkup.Proofs.Script.Keywords
import ComponentMarkup.Proofs.Script.SideBySide
import ComponentMarkup.Proofs.Script.TokenStable

/-!
# The leaves of a script are its tokens

The parser takes tokens from the lexer and builds branches over them.  It makes faults of some tokens and takes
reserved words as identifiers, but it never splits, joins or moves a token.  So every leaf of a script is what
the lexer reads at its place, up to whether a word is reserved.

* `IsToken` — what the lexer reads at a place;
* `MadeOfTokens` — a tree whose leaves are tokens, with commands that may host trees of their own;
* `Parser.Lexed`, `lexed_simulation` — all nodes of a parser are made of tokens, and every step keeps that;
* `readEntry_tokens` — a script is made of tokens.
-/

namespace ComponentMarkup.Script

open ComponentMarkup.Text ComponentMarkup.Tree

variable {src : Source} {stop : Nat}

/-! ## Tokens of a stretch -/

/-- A stretch that the lexer reads as one token of a kind.  A reserved word may be taken as an identifier. -/
def IsToken (src : Source) (stop : Nat) (k : ScriptKind) (s : Span) : Prop :=
  ∃ before c cs l, src.slice s.start stop = c :: cs ∧ lexeme before c cs = ⟨.ok l, s.stop - s.start⟩ ∧
    l.category = k.category ∧ (k = l ∨ k = .ident)

/-- A script tree whose leaves are tokens.  A branch knows whether it holds a fault. -/
inductive MadeOfTokens (src : Source) (stop : Nat) : Node → Prop
  /-- A token. -/
  | token {k : ScriptKind} {text : String} {span : Span} (reads : IsToken src stop k span) :
      MadeOfTokens src stop (.leaf (.script k) text span)
  /-- The end of the script. -/
  | last {span : Span} : MadeOfTokens src stop (.leaf (.script .endOfTokens) "" span)
  /-- What the grammar does not allow. -/
  | fault {message : String} {hints : List String} {text : String} {span : Span} :
      MadeOfTokens src stop (.fault message hints text span)
  /-- A branch over others. -/
  | branch {k : ScriptKind} {span : Span} {count : Nat} {faulty : Bool} {children : List Node}
      (plain : k ≠ .embed) (flag : faulty = children.any Node.faulty)
      (parts : ∀ child ∈ children, MadeOfTokens src stop child) :
      MadeOfTokens src stop (.inner (.script k) span none count faulty children)
  /-- An embedded command that hosts its own tree. -/
  | command {span : Span} {choice : Choice} {count : Nat} {faulty : Bool} {children : List Node}
      (reads : IsToken src stop .embed span) :
      MadeOfTokens src stop (.inner (.script .embed) span (some choice) count faulty children)

/-- Trees that are made of tokens. -/
def AllTokens (src : Source) (stop : Nat) (ns : List Node) : Prop :=
  ∀ n ∈ ns, MadeOfTokens src stop n

namespace AllTokens

variable {ns ms : List Node} {n : Node}

theorem nil : AllTokens src stop [] :=
  fun _ h => absurd h List.not_mem_nil

theorem append (h : AllTokens src stop ns) (h' : AllTokens src stop ms) : AllTokens src stop (ns ++ ms) := by
  intro n hn
  rcases List.mem_append.mp hn with hn | hn
  · exact h n hn
  · exact h' n hn

theorem subset (h : AllTokens src stop ns) (hsub : ms ⊆ ns) : AllTokens src stop ms :=
  fun n hn => h n (hsub hn)

theorem single (h : MadeOfTokens src stop n) : AllTokens src stop [n] := by
  intro m hm
  obtain rfl := List.mem_singleton.mp hm
  exact h

theorem branchAt (h : AllTokens src stop ns) {k : ScriptKind} (hk : (k != .embed) = true) (place : Nat) :
    MadeOfTokens src stop (Node.branchAt (.script k) place ns) := by
  have hplain : k ≠ .embed := bne_iff_ne.mp hk
  cases ns with
  | nil => exact .branch hplain rfl nil
  | cons n ns => exact .branch hplain rfl h

theorem extract {nodes : Array Node} (h : AllTokens src stop nodes.toList) (i j : Nat) :
    AllTokens src stop (nodes.extract i j).toList := by
  refine h.subset ?_
  rw [Array.toList_extract, List.extract_eq_take_drop]
  exact fun _ hn => List.mem_of_mem_drop (List.mem_of_mem_take hn)

end AllTokens

/-- The next token is one of the stretch. -/
theorem Lexer.Reads.madeOfTokens {lx : Lexer} (h : lx.Reads src stop) : MadeOfTokens src stop lx.next.1 := by
  cases hrest : lx.rest with
  | nil =>
      rw [Lexer.next_nil hrest]
      exact .last
  | cons c cs =>
      have hslice : src.slice lx.place stop = c :: cs := h.rest.symm.trans hrest
      unfold Lexer.next
      rw [hrest]
      dsimp only
      cases htoken : (lexeme lx.before c cs).kind with
      | error message => exact .fault
      | ok l =>
          refine .token ⟨lx.before, c, cs, l, hslice, ?_, rfl, .inl rfl⟩
          rw [Nat.add_sub_cancel_left, ← htoken]

/-! ## The parser -/

/-- A current token that is one of the stretch. -/
structure Current.Lexed (src : Source) (stop : Nat) (c : Current) : Prop where
  token : MadeOfTokens src stop c.node
  kind_eq : c.kind = c.node.kind

/-- An arrow function whose nodes are made of tokens. -/
structure ArrowGroup.Lexed (src : Source) (stop : Nat) (g : ArrowGroup) : Prop where
  reads : g.lexer.Reads src stop
  current : g.current.Lexed src stop
  nodes : AllTokens src stop g.nodes

/-- A parser whose nodes are made of tokens. -/
structure Parser.Lexed (src : Source) (stop : Nat) (p : Parser) : Prop where
  reads : p.lexer.Reads src stop
  current : p.current.Lexed src stop
  nodes : AllTokens src stop p.nodes.toList
  arrows : ∀ g ∈ p.arrows, g.Lexed src stop

/-- What reading up to a token gives is made of tokens. -/
structure TokensRead (src : Source) (stop : Nat) (read : Current × Lexer × Array Node) : Prop where
  current : read.1.Lexed src stop
  reads : read.2.1.Reads src stop
  nodes : AllTokens src stop read.2.2.toList

theorem readTrivia_lexed {previousStop : Nat} (fuel : Nat) {lx : Lexer} {nodes : Array Node} {trivia : Nat}
    {newline : Bool} (h : lx.Reads src stop) (hnodes : AllTokens src stop nodes.toList) :
    TokensRead src stop (readTrivia previousStop fuel lx nodes trivia newline) := by
  induction fuel generalizing lx nodes trivia newline with
  | zero => exact ⟨⟨h.madeOfTokens, rfl⟩, h.next.reads, hnodes⟩
  | succ fuel ih =>
      rw [readTrivia_succ]
      split
      · refine ih h.next.reads ?_
        rw [Array.toList_push]
        exact hnodes.append (.single h.madeOfTokens)
      · exact ⟨⟨h.madeOfTokens, rfl⟩, h.next.reads, hnodes⟩

theorem readCurrent_lexed {lx : Lexer} {nodes : Array Node} (h : lx.Reads src stop)
    (hnodes : AllTokens src stop nodes.toList) : TokensRead src stop (readCurrent lx nodes) :=
  readTrivia_lexed _ h hnodes

namespace Parser.Lexed

variable {p q : Parser}

theorem ofSpan {s : Span} (hle : s.start ≤ s.stop) (hstop : s.stop ≤ src.size) :
    (Parser.ofSpan src s).Lexed src s.stop := by
  have hread : TokensRead src s.stop (readCurrent (.ofSpan src s) #[]) :=
    readCurrent_lexed ⟨hle, hstop, rfl⟩ .nil
  exact ⟨hread.reads, hread.current, hread.nodes, fun g hg => absurd hg List.not_mem_nil⟩

/-- The nodes of a parser may be replaced. -/
theorem withNodes (h : p.Lexed src stop) {nodes : Array Node} (hnodes : AllTokens src stop nodes.toList) :
    ({ p with nodes := nodes } : Parser).Lexed src stop :=
  ⟨h.reads, h.current, hnodes, h.arrows⟩

theorem check (h : p.Lexed src stop) (holds : Bool) : (p.check holds).Lexed src stop :=
  ⟨h.reads, h.current, h.nodes, h.arrows⟩

theorem leave (h : p.Lexed src stop) : p.leave.Lexed src stop :=
  ⟨h.reads, h.current, h.nodes, h.arrows⟩

theorem eatAs (h : p.Lexed src stop) {n : Node} (hn : MadeOfTokens src stop n) : (p.eatAs n).Lexed src stop := by
  have hnodes : AllTokens src stop (p.nodes.push n).toList := by
    rw [Array.toList_push]
    exact h.nodes.append (.single hn)
  have hread := readCurrent_lexed h.reads hnodes
  exact ⟨hread.reads, hread.current, hread.nodes, h.arrows⟩

theorem eat (h : p.Lexed src stop) : p.eat.Lexed src stop :=
  h.eatAs h.current.token

theorem eatAll (fuel : Nat) (h : p.Lexed src stop) : (Parser.eatAll fuel p).Lexed src stop := by
  induction fuel generalizing p with
  | zero => exact h
  | succ fuel ih =>
      unfold Parser.eatAll
      split
      · exact h
      · exact ih h.eat

/-- A reserved word taken as an identifier is still the token it was, up to that. -/
theorem rename (h : p.Lexed src stop) (hword : p.isAtAny (.ident :: Parser.reserved) = true) :
    (p.eatAs (p.current.node.withKind (.script .ident))).Lexed src stop := by
  refine h.eatAs ?_
  have htoken := h.current.token
  have hkind := h.current.kind_eq
  unfold Parser.isAtAny Parser.kind? at hword
  rw [hkind] at hword
  have hwords : ∀ k ∈ ScriptKind.ident :: Parser.reserved, k.category = ScriptKind.ident.category := by decide
  cases hnode : p.current.node with
  | fault message hints text span => exact .fault
  | inner kind span host count faulty children =>
      rw [hnode] at htoken hword
      cases htoken with
      | branch plain flag parts => exact .branch (by decide) flag parts
      | command reads =>
          exact absurd (show (ScriptKind.ident :: Parser.reserved).contains .embed = true from hword)
            (by decide)
  | leaf kind text span =>
      rw [hnode] at htoken hword
      cases htoken with
      | @token k _ _ reads =>
          obtain ⟨before, c, cs, l, hslice, hlexeme, hcategory, -⟩ := reads
          have hk : k ∈ ScriptKind.ident :: Parser.reserved := List.mem_of_elem_eq_true hword
          exact .token ⟨before, c, cs, l, hslice, hlexeme, hcategory.trans (hwords k hk), .inr rfl⟩
      | last =>
          exact absurd (show (ScriptKind.ident :: Parser.reserved).contains .endOfTokens = true from hword)
            (by decide)

/-- A branch is made of what it is built over. -/
theorem wrap (h : p.Lexed src stop) (mark : Nat) {k : ScriptKind} (hk : (k != .embed) = true) :
    (p.wrap mark k).Lexed src stop := by
  refine (h.check _).withNodes ?_
  rw [Array.toList_append, Array.toList_push]
  exact ((h.nodes.extract _ _).append (.single ((h.nodes.extract _ _).branchAt hk _))).append
    (h.nodes.extract _ _)

/-! ## Faults -/

theorem faultOf_madeOfTokens {n : Node} (h : MadeOfTokens src stop n) (message : String) :
    MadeOfTokens src stop (Parser.faultOf n message) := by
  unfold Parser.faultOf
  split
  · exact h
  · exact .fault

theorem hint_madeOfTokens {n : Node} (h : MadeOfTokens src stop n) (text : String) : MadeOfTokens src stop (n.hint text) := by
  cases n with
  | leaf => exact h
  | inner => exact h
  | fault => exact .fault

theorem expected (h : p.Lexed src stop) (thing : String) : (p.expected thing).Lexed src stop := by
  unfold Parser.expected
  dsimp only
  split
  · exact h.check _
  · refine (h.check _).withNodes ?_
    rw [Array.toList_append, Array.toList_push]
    exact ((h.nodes.extract _ _).append (.single .fault)).append (h.nodes.extract _ _)

theorem trimFaults (h : p.Lexed src stop) : p.trimFaults.Lexed src stop := by
  refine (h.check _).withNodes ?_
  rw [Array.toList_append]
  exact (h.nodes.extract _ _).append (h.nodes.extract _ _)

theorem unexpected (h : p.Lexed src stop) : p.unexpected.Lexed src stop :=
  h.trimFaults.eatAs (faultOf_madeOfTokens h.trimFaults.current.token _)

theorem eatReserved (h : p.Lexed src stop) : p.eatReserved.Lexed src stop :=
  h.trimFaults.eatAs (hint_madeOfTokens (faultOf_madeOfTokens h.trimFaults.current.token _) _)

/-- An opening bracket that is not closed becomes a fault. -/
theorem closeAt (h : p.Lexed src stop) (mark : Nat) (k : ScriptKind) : (p.closeAt mark k).Lexed src stop := by
  unfold Parser.closeAt
  split
  · exact h.eat
  · split
    · rename_i n hn
      refine h.withNodes fun m hm => ?_
      rw [Array.toList_setIfInBounds] at hm
      rcases List.mem_or_eq_of_mem_set hm with hm | rfl
      · exact h.nodes m hm
      · unfold Parser.faultOf
        split
        · exact h.nodes n (Array.mem_toList_iff.mpr (Array.mem_of_getElem? hn))
        · exact .fault
    · exact h

/-! ## Nesting and going back -/

theorem enter (h : p.Lexed src stop) : p.enter.1.Lexed src stop := by
  unfold Parser.enter
  split
  · exact eatAll _ ⟨h.reads, h.current, h.nodes, h.arrows⟩
  · exact ⟨h.reads, h.current, h.nodes, h.arrows⟩

theorem rewind (h : p.Lexed src stop) (hq : q.Lexed src stop) : (p.rewind q).Lexed src stop :=
  ⟨hq.reads, hq.current, h.nodes.extract _ _, h.arrows⟩

theorem replay (h : p.Lexed src stop) {g : ArrowGroup} (hg : p.knownArrow? = some g) :
    (p.replay g).Lexed src stop := by
  have hgroup := h.arrows g (List.mem_of_find?_eq_some hg)
  refine ⟨hgroup.reads, hgroup.current, ?_, h.arrows⟩
  show AllTokens src stop (p.nodes ++ g.nodes.toArray).toList
  rw [Array.toList_append]
  exact h.nodes.append hgroup.nodes

theorem remember (h : p.Lexed src stop) (start mark : Nat) : (p.remember start mark).Lexed src stop := by
  refine ⟨h.reads, h.current, h.nodes, fun g hg => ?_⟩
  rcases List.mem_cons.mp hg with rfl | hg
  · exact ⟨h.reads, h.current, h.nodes.extract _ _⟩
  · exact h.arrows g hg

end Parser.Lexed

/-- **Every step of the parser keeps its nodes made of tokens.** -/
theorem lexed_simulation (src : Source) (stop : Nat) :
    Simulation fun p q => p = q ∧ p.Lexed src stop where
  alike := by
    rintro p _ ⟨rfl, _⟩
    exact ⟨rfl, rfl, rfl, rfl, rfl, rfl, rfl, rfl, fun _ _ => rfl, rfl⟩
  check := by
    rintro p _ holds ⟨rfl, h⟩
    exact ⟨rfl, h.check holds⟩
  eat := by
    rintro p _ ⟨rfl, h⟩
    exact ⟨rfl, h.eat⟩
  rename := by
    rintro p _ hword ⟨rfl, h⟩
    exact ⟨rfl, h.rename hword⟩
  branch := by
    rintro p _ mark k hk ⟨rfl, h⟩
    exact ⟨rfl, h.wrap mark hk⟩
  expected := by
    rintro p _ thing ⟨rfl, h⟩
    exact ⟨rfl, h.expected thing⟩
  unexpected := by
    rintro p _ ⟨rfl, h⟩
    exact ⟨rfl, h.unexpected⟩
  eatReserved := by
    rintro p _ ⟨rfl, h⟩
    exact ⟨rfl, h.eatReserved⟩
  closeAt := by
    rintro p _ mark k ⟨rfl, h⟩
    exact ⟨rfl, h.closeAt mark k⟩
  enter := by
    rintro p _ ⟨rfl, h⟩
    exact ⟨rfl, h.enter⟩
  leave := by
    rintro p _ ⟨rfl, h⟩
    exact ⟨rfl, h.leave⟩
  rewind := by
    rintro p _ p' _ ⟨rfl, h⟩ ⟨rfl, h'⟩
    exact ⟨rfl, h.rewind h'⟩
  replay := by
    rintro p _ g g' ⟨rfl, h⟩ hg hg'
    obtain rfl := Option.some.inj (hg.symm.trans hg')
    exact ⟨rfl, h.replay hg⟩
  remember := by
    rintro p _ p' _ ⟨rfl, h⟩ ⟨rfl, _⟩
    exact ⟨rfl, h.remember _ _⟩

/-! ## Scripts -/

variable {s : Span}

/-- The root over the nodes of a parser is made of tokens. -/
theorem Parser.Lexed.finish {p : Parser} (h : p.Lexed src stop) {k : ScriptKind} (hk : (k != .embed) = true) :
    MadeOfTokens src stop (p.finish k).value :=
  h.nodes.branchAt hk _

/-- **The leaves of a script are its tokens**, from any entry point. -/
theorem readEntry_tokens (hle : s.start ≤ s.stop) (hstop : s.stop ≤ src.size) (entry : Entry) :
    MadeOfTokens src s.stop (readEntry src s entry).value := by
  have hstart := Parser.Lexed.ofSpan hle hstop
  have sim := lexed_simulation src s.stop
  cases entry with
  | statements => exact (eatRest_related sim (readScript_related sim ⟨rfl, hstart⟩)).2.finish rfl
  | expression => exact (eatRest_related sim (readSoleExpression_related sim ⟨rfl, hstart⟩)).2.finish rfl
  | attributes => exact (eatRest_related sim (readAttributes_related sim ⟨rfl, hstart⟩)).2.finish rfl

end ComponentMarkup.Script
