import ComponentMarkup.Proofs.Script.Brackets
import ComponentMarkup.Proofs.Script.Keywords

/-!
# Tokens and brackets

The token of an opening bracket looks like the bracket, and white space and comments look like white space and comments.
No token says that it is an unclosed bracket: only the parser makes such faults.

* `TokenNode`, `Lexer.next_tokenNode` — the tokens of a lexer;
* `TokenNode.orderly`, `TokenNode.orderly_faultOf`, … — most tokens are no brackets, whatever they become;
* `orderly_skipped`, `idle_skipped` — the white space and the comments before a token;
* `Lexer.BareLoop` — a loop without an opening parenthesis; `Current.ReadFrom` — a token and the tokens before it.
-/

namespace ComponentMarkup.Script

open ComponentMarkup.Text ComponentMarkup.Tree

variable {deep bare : Prop} {n : Node} {k : ScriptKind} {cs : List Char} {message : String} {lx : Lexer}

/-! ## What tokens look like -/

/-- What is known of the first token of a text: an opening bracket, white space and comments look like it, and no fault
is about a bracket. -/
structure Lexeme.Honest (cs : List Char) (token : Lexeme) : Prop where
  bracket : ∀ b : Bracket, token.kind = .ok b.opening → String.ofList (cs.take token.length) = b.openingText
  idle : ∀ k, token.kind = .ok k → (Kind.script k).isTrivia = true →
    isIdle (String.ofList (cs.take token.length)) = true
  silent : token.kind ≠ .error unclosedMessage

/-- Tokens of most kinds. -/
theorem Lexeme.Honest.ok {length : Nat} (h : isBracket k = false) (h' : (Kind.script k).isTrivia = false) :
    Lexeme.Honest cs ⟨.ok k, length⟩ := by
  refine ⟨fun b hb => absurd (Except.ok.inj hb) (isBracket_eq_false h b).1, fun l hl htrivia => ?_, nofun⟩
  obtain rfl := Except.ok.inj hl
  exact Bool.noConfusion (h'.symm.trans htrivia)

theorem Lexeme.Honest.opening {length : Nat} (b : Bracket) (h : String.ofList (cs.take length) = b.openingText) :
    Lexeme.Honest cs ⟨.ok b.opening, length⟩ := by
  refine ⟨fun b' hb' => ?_, fun k hk htrivia => ?_, nofun⟩
  · obtain rfl : b = b' := by
      have hkind := Except.ok.inj hb'
      revert hkind
      cases b <;> cases b' <;> decide
    exact h
  · obtain rfl := Except.ok.inj hk
    cases b <;> exact Bool.noConfusion htrivia

theorem Lexeme.Honest.closing {length : Nat} (b : Bracket) : Lexeme.Honest cs ⟨.ok b.closing, length⟩ := by
  refine ⟨fun b' hb' => absurd (Except.ok.inj hb').symm (Bracket.opening_ne_closing b' b), fun k hk htrivia => ?_,
    nofun⟩
  obtain rfl := Except.ok.inj hk
  cases b <;> exact Bool.noConfusion htrivia

theorem Lexeme.Honest.trivia {length : Nat} (h : isBracket k = false)
    (h' : isIdle (String.ofList (cs.take length)) = true) : Lexeme.Honest cs ⟨.ok k, length⟩ :=
  ⟨fun b hb => absurd (Except.ok.inj hb) (isBracket_eq_false h b).1, fun _ _ _ => h', nofun⟩

theorem Lexeme.Honest.error {length : Nat} (h : message ≠ unclosedMessage) :
    Lexeme.Honest cs ⟨.error message, length⟩ :=
  ⟨nofun, nofun, fun heq => h (Except.error.inj heq)⟩

theorem assignable_honest (n : Nat) (rest : List Char) : (assignable n rest).Honest cs := by
  unfold assignable
  split
  · exact .ok rfl rfl
  · exact .ok rfl rfl

theorem operatorLexeme?_honest {c : Char} {token : Lexeme} (h : operatorLexeme? c cs = some token) :
    token.Honest (c :: cs) := by
  unfold operatorLexeme? at h
  split at h <;> first
    | exact absurd h (Option.some_ne_none token).symm
    | exact Option.some.inj h ▸ assignable_honest _ _
    | exact Option.some.inj h ▸ .ok rfl rfl
    | exact Option.some.inj h ▸ .closing .brace
    | exact Option.some.inj h ▸ .closing .square
    | exact Option.some.inj h ▸ .closing .paren
    | exact Option.some.inj h ▸ .opening .brace rfl
    | exact Option.some.inj h ▸ .opening .square rfl
    | exact Option.some.inj h ▸ .opening .paren rfl
    | (split at h <;> exact Option.some.inj h ▸ .ok rfl rfl)

theorem numberEnd_honest (length : Nat) (rest : List Char) : (numberEnd length rest).Honest cs := by
  unfold numberEnd
  dsimp only
  generalize (if rest.head? == some 'n' then 1 else 0) = mark
  split
  · exact .ok rfl rfl
  · exact .error (by decide)

theorem numberLexeme_honest (c : Char) (rest : List Char) : (numberLexeme c rest).Honest cs := by
  unfold numberLexeme
  dsimp only
  split
  · exact numberEnd_honest _ _
  · split
    · exact .error (by decide)
    · exact numberEnd_honest _ _

theorem embedGroups_honest (fuel length : Nat) (rest : List Char) : (embedGroups fuel length rest).Honest cs := by
  fun_induction embedGroups fuel length rest with
  | case1 => exact .ok rfl rfl
  | case2 => exact .error (by decide)
  | case3 _ _ _ _ _ ih => exact ih
  | case4 => exact .error (by decide)
  | case5 _ _ _ _ _ ih => exact ih
  | case6 => exact .error (by decide)
  | case7 => exact .ok rfl rfl

theorem embedLexeme_honest (rest : List Char) : (embedLexeme rest).Honest cs := by
  unfold embedLexeme
  split
  · exact embedGroups_honest _ _ _
  · split
    · exact embedGroups_honest _ _ _
    · split
      · exact embedGroups_honest _ _ _
      · split
        · split
          · exact .error (by decide)
          · exact embedGroups_honest _ _ _
        · exact embedGroups_honest _ _ _

theorem wordLexeme_honest (before : List Char) (c : Char) (rest : List Char) :
    (wordLexeme before c rest).Honest cs := by
  have hreserved : ∀ {word : String} {l : ScriptKind}, reservedWord? word = some l →
      isBracket l = false ∧ (Kind.script l).isTrivia = false := by
    intro word l hl
    unfold reservedWord? at hl
    split at hl <;> first
      | exact absurd hl (Option.some_ne_none l).symm
      | exact Option.some.inj hl ▸ ⟨rfl, rfl⟩
  unfold wordLexeme
  dsimp only
  split
  · exact .ok rfl rfl
  · cases hword : reservedWord? (String.ofList (c :: rest.takeWhile isWordPart)) with
    | none => exact .ok rfl rfl
    | some l => exact .ok (hreserved hword).1 (hreserved hword).2

/-- **The first token of a text looks like what it is**: an opening bracket, white space or a comment. -/
theorem lexeme_honest (before : List Char) (c : Char) (cs : List Char) : (lexeme before c cs).Honest (c :: cs) := by
  unfold lexeme
  split
  · rename_i hspace
    refine .trivia rfl ?_
    have hall : ((c :: cs).take (runLength isWhitespace cs + 1)).all isWhitespace = true := by
      rw [List.take_succ_cons, take_runLength, List.all_cons, hspace, Bool.true_and, List.all_takeWhile]
    unfold isIdle
    dsimp only
    rw [String.toList_ofList, hall]
    rfl
  split
  · rename_i hcomment
    obtain ⟨hc, hd⟩ := Bool.and_eq_true_iff.mp hcomment
    obtain rfl := beq_iff_eq.mp hc
    obtain ⟨ds, rfl⟩ := List.head?_eq_some_iff.mp (beq_iff_eq.mp hd)
    rw [runLength_cons _ (by decide)]
    refine .trivia rfl ?_
    unfold isIdle
    rw [String.toList_ofList]
    simp
  split
  · rename_i hcomment
    obtain ⟨hc, hd⟩ := Bool.and_eq_true_iff.mp hcomment
    obtain rfl := beq_iff_eq.mp hc
    obtain ⟨ds, rfl⟩ := List.head?_eq_some_iff.mp (beq_iff_eq.mp hd)
    split
    · refine .trivia rfl ?_
      unfold isIdle
      rw [String.toList_ofList]
      simp
    · exact .error (by decide)
  split
  · exact embedLexeme_honest cs
  split
  · unfold stringLexeme
    dsimp only
    split
    · exact .ok rfl rfl
    · exact .error (by decide)
  split
  · unfold templateLexeme
    split
    · exact .ok rfl rfl
    · exact .error (by decide)
  split
  · exact numberLexeme_honest c cs
  · split
    · rename_i token htoken
      exact operatorLexeme?_honest htoken
    · split
      · exact wordLexeme_honest before c cs
      · refine .error fun heq => ?_
        have hfirst := congrArg (fun s : String => s.toList.head?) heq
        simp [unclosedMessage] at hfirst

/-! ## Tokens as nodes -/

/-- A node of a token: a leaf or a fault, with text unless the tokens end.  Opening brackets, white space and comments
look like themselves, and no fault is about a bracket. -/
structure TokenNode (n : Node) : Prop where
  children : n.children = []
  silent : n.says unclosedMessage = false
  bracket : ∀ b : Bracket, n.isScript b.opening = true → n.fullText = b.openingText
  idle : n.kind.isTrivia = true → isIdle n.fullText = true
  solid : isEmptyFault n = false

/-- **What a lexer reads is a token.** -/
theorem Lexer.next_tokenNode (lx : Lexer) : TokenNode lx.next.1 := by
  unfold Lexer.next
  split
  · exact ⟨rfl, rfl, fun b hb => absurd (Kind.script.inj (eq_of_beq hb)) (by cases b <;> decide),
      fun htrivia => Bool.noConfusion htrivia, rfl⟩
  · rename_i c cs hrest
    have hhonest := lexeme_honest lx.before c cs
    have hpos := (lexeme_fits lx.before c cs).1
    rw [hrest]
    generalize lexeme lx.before c cs = token at hhonest hpos
    obtain ⟨kind, length⟩ := token
    have hfull : ∀ {kind : Kind} {text : String} {s : Span}, (Node.leaf kind text s).fullText = text := by
      intro kind text s
      simp [Node.fullText, Node.leaves, Node.text, String.join]
    cases kind with
    | error message =>
        refine ⟨rfl, beq_eq_false_iff_ne.mpr fun h => hhonest.silent (congrArg Except.error h), fun b hb =>
          absurd (eq_of_beq hb) fun h => Kind.noConfusion h, fun htrivia => Bool.noConfusion htrivia, ?_⟩
        have hsize : lx.place + length - lx.place ≠ 0 := by
          dsimp only at hpos
          omega
        simpa [isEmptyFault, Node.isFault, Node.kind, Node.span, Span.size] using hsize
    | ok k =>
        refine ⟨rfl, rfl, fun b hb => ?_, fun htrivia => ?_, rfl⟩
        · exact hfull.trans (hhonest.bracket b (congrArg Except.ok (Kind.script.inj (eq_of_beq hb))))
        · exact (congrArg isIdle hfull).trans (hhonest.idle k rfl htrivia)

namespace TokenNode

/-- A token holds no branches, and says of no bracket that it is unclosed. -/
theorem quiet (h : TokenNode n) : Quiet deep bare n :=
  .childless h.children fun hsays => absurd (h.silent.symm.trans hsays) Bool.noConfusion

/-- Tokens of most kinds are no brackets. -/
theorem orderly (h : TokenNode n) (hn : n.kind = .script k) (hk : isBracket k = false) : Orderly deep bare n :=
  ⟨h.quiet, fun _ => isScript_bracket hn hk⟩

/-- White space and comments. -/
theorem orderly_trivia (h : TokenNode n) (hn : n.kind.isTrivia = true) : Orderly deep bare n := by
  refine ⟨h.quiet, fun _ b => ⟨beq_eq_false_iff_ne.mpr fun heq => ?_, beq_eq_false_iff_ne.mpr fun heq => ?_⟩⟩
  · rw [heq] at hn
    cases b <;> exact Bool.noConfusion hn
  · rw [heq] at hn
    cases b <;> exact Bool.noConfusion hn

/-- A token as one of another kind. -/
theorem orderly_withKind (h : TokenNode n) (hk : isBracket k = false) : Orderly deep bare (n.withKind (.script k)) := by
  have hchildren := h.children
  cases n with
  | fault message hints text s => exact .ofFault h.quiet rfl
  | _ => exact ⟨.childless hchildren nofun, fun _ => isScript_bracket rfl hk⟩

theorem solid_withKind (h : TokenNode n) (k : ScriptKind) : isEmptyFault (n.withKind (.script k)) = false := by
  cases n with
  | fault message hints text s => exact h.solid
  | _ => rfl

/-- A token as a fault about something else. -/
theorem orderly_faultOf (h : TokenNode n) (hmessage : message ≠ unclosedMessage) :
    Orderly deep bare (Parser.faultOf n message) := by
  unfold Parser.faultOf
  split
  · exact .ofFault h.quiet ‹_›
  · exact .fault fun heq => absurd heq hmessage

end TokenNode

/-- A hint does not change what a fault says. -/
theorem Orderly.hint (h : Orderly deep bare n) (text : String) : Orderly deep bare (n.hint text) := by
  cases n with
  | fault message hints t s => exact .fault fun heq => h.silent (beq_iff_eq.mpr heq)
  | _ => exact h

/-- What says that something was not expected, or that something else was, does not speak of brackets. -/
theorem message_ne {front rest : String} (h : (front.toList.isPrefixOf unclosedMessage.toList) = false) :
    front ++ rest ≠ unclosedMessage := by
  intro heq
  have hprefix : front.toList.isPrefixOf (front ++ rest).toList = true := by
    rw [String.toList_append, List.isPrefixOf_iff_prefix]
    exact List.prefix_append _ _
  rw [heq, h] at hprefix
  exact Bool.noConfusion hprefix

/-! ## What stands before a token -/

/-- White space and comments before a token are no brackets. -/
theorem orderly_skipped (lx : Lexer) : ∀ m ∈ lx.skipped, Orderly deep bare m := by
  intro m hm
  obtain ⟨lx', rfl, htrivia⟩ := lexed_skipped lx m hm
  exact lx'.next_tokenNode.orderly_trivia htrivia

/-- White space and comments before a token look like themselves. -/
theorem idle_skipped (lx : Lexer) : ∀ m ∈ lx.skipped, isIdle m.fullText = true := by
  intro m hm
  obtain ⟨lx', rfl, htrivia⟩ := lexed_skipped lx m hm
  exact lx'.next_tokenNode.idle htrivia

/-! ## The tokens before a token -/

/-- Whether a token lacks a parenthesis before it: one that stands right behind `for`, or behind `for` and `await`.  The
tokens before it are given last first. -/
def lacksParen (read : List Node) (t : Node) : Bool :=
  match read with
  | o :: rest =>
    if o.isScript .forWord then !t.isScript .leftParen && !t.isScript .awaitWord
    else o.isScript .awaitWord && rest.head?.any (·.isScript .forWord) && !t.isScript .leftParen
  | [] => false

/-- Some loop among the tokens in front of a lexer has no opening parenthesis. -/
def Lexer.BareLoop (lx : Lexer) : Prop :=
  ∃ n, (lx.skip n).next.1.kind.isTrivia = false ∧ lacksParen (significant (lx.read n)) (lx.skip n).next.1 = true

/-- A token that a parser stands at, as a lexer gave it: the tokens before it, last first, and the lexer behind it. -/
structure Current.ReadFrom (lx : Lexer) (read : List Node) (behind : Lexer) (c : Current) : Prop where
  place : ∃ n, c.node = (lx.skip n).next.1 ∧ behind = lx.skip (n + 1) ∧ significant (lx.read n) = read
  kind_eq : c.kind = c.node.kind
  solid : c.node.kind.isTrivia = false

theorem Current.ReadFrom.node {c : Current} {read : List Node} {behind : Lexer} (h : c.ReadFrom lx read behind) :
    TokenNode c.node := by
  obtain ⟨n, hnode, _⟩ := h.place
  rw [hnode]
  exact Lexer.next_tokenNode _

theorem Current.ReadFrom.isScript {c : Current} {read : List Node} {behind : Lexer} (h : c.ReadFrom lx read behind)
    (k : ScriptKind) : c.node.isScript k = (c.kind == .script k) := by
  rw [h.kind_eq, Node.isScript]

theorem Current.ReadFrom.bareLoop {c : Current} {read : List Node} {behind : Lexer} (h : c.ReadFrom lx read behind)
    (hlacks : lacksParen read c.node = true) : lx.BareLoop := by
  obtain ⟨n, hnode, _, rfl⟩ := h.place
  exact ⟨n, hnode ▸ h.solid, hnode ▸ hlacks⟩

/-- Every token takes some characters. -/
theorem Lexer.next_shorter (h : lx.rest ≠ []) : lx.next.2.rest.length < lx.rest.length := by
  obtain ⟨c, cs, hrest⟩ := List.exists_cons_of_ne_nil h
  obtain ⟨hlexer, _⟩ := Lexer.next_cons hrest
  have hpos := (lexeme_fits lx.before c cs).1
  have hlength := List.length_pos_iff.mpr h
  rw [hlexer]
  show (lx.rest.drop _).length < _
  rw [List.length_drop]
  omega

/-- The next token is found behind white space and comments. -/
theorem readTrivia_readFrom (lx : Lexer) (previousStop fuel n : Nat) (nodes : Array Node) (count : Nat) (newline : Bool)
    (hfuel : (lx.skip n).rest.length ≤ fuel) :
    (readTrivia previousStop fuel (lx.skip n) nodes count newline).1.ReadFrom lx (significant (lx.read n))
      (readTrivia previousStop fuel (lx.skip n) nodes count newline).2.1 := by
  induction fuel generalizing n nodes count newline with
  | zero =>
      refine ⟨⟨n, rfl, rfl, rfl⟩, rfl, ?_⟩
      have hnil : (lx.skip n).rest = [] := List.length_eq_zero_iff.mp (Nat.le_zero.mp hfuel)
      show (lx.skip n).next.1.kind.isTrivia = false
      rw [Lexer.next_nil hnil]
      rfl
  | succ fuel ih =>
      rw [readTrivia_succ]
      split
      · rename_i htrivia
        have hread : significant (lx.read (n + 1)) = significant (lx.read n) := by
          have hgone : significant [(lx.skip n).next.1] = [] :=
            significant_trivia fun m hm => List.mem_singleton.mp hm ▸ htrivia
          show significant ([(lx.skip n).next.1] ++ lx.read n) = _
          rw [significant_append, hgone, List.nil_append]
        have hne : (lx.skip n).rest ≠ [] := by
          intro hnil
          rw [Lexer.next_nil hnil] at htrivia
          exact Bool.noConfusion htrivia
        have hless : (lx.skip (n + 1)).rest.length < (lx.skip n).rest.length := Lexer.next_shorter hne
        rw [← hread]
        exact ih (n + 1) _ _ _ (by omega)
      · rename_i hsolid
        exact ⟨⟨n, rfl, rfl, rfl⟩, rfl, Bool.eq_false_iff.mpr hsolid⟩

/-- Behind a token stands the next one. -/
theorem Current.ReadFrom.next {c : Current} {read : List Node} {behind : Lexer} (h : c.ReadFrom lx read behind)
    (nodes : Array Node) :
    (readCurrent behind nodes).1.ReadFrom lx (c.node :: read) (readCurrent behind nodes).2.1 := by
  obtain ⟨n, hnode, rfl, hread⟩ := h.place
  have htoken : significant (lx.read (n + 1)) = c.node :: read := by
    rw [← hread, Lexer.read, ← hnode]
    exact List.filter_cons_of_pos (by rw [h.solid]; rfl)
  exact htoken ▸ readTrivia_readFrom lx _ _ (n + 1) nodes 0 false (Nat.le_refl _)

/-- The kind of the next token is found by looking ahead. -/
theorem readTrivia_peekKind (previousStop fuel : Nat) (lx : Lexer) (nodes : Array Node) (count : Nat)
    (newline : Bool) : (readTrivia previousStop fuel lx nodes count newline).1.kind = peekKind fuel lx := by
  induction fuel generalizing lx nodes count newline with
  | zero => rfl
  | succ fuel ih =>
      have hpeek : peekKind (fuel + 1) lx =
          if lx.next.1.kind.isTrivia = true then peekKind fuel lx.next.2 else lx.next.1.kind := rfl
      rw [readTrivia_succ, hpeek]
      split
      · exact ih _ _ _ _
      · rfl

end ComponentMarkup.Script
