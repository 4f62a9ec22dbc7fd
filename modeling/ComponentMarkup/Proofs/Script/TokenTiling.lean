import ComponentMarkup.Proofs.Script.TokenLength
import ComponentMarkup.Proofs.Tree.Places
import ComponentMarkup.Script.Parser

/-!
# Tokens tile the text

The lexer cuts a stretch into tokens that follow each other without a gap.  A token that is not the end covers
at least one character, and the token that stands for the end covers none.  White space and comments in front
of a token are put aside as nodes of their own, so they and the token cover everything that was read.

* `Lexer.Reads` — a lexer with the text of the stretch before it;
* `Lexer.Cut`, `Lexer.Reads.next` — the next token covers the text up to where the lexer stands behind it;
* `readCurrent_spec` — so do the next token and what stands in front of it.
-/

namespace ComponentMarkup.Script

open ComponentMarkup.Text ComponentMarkup.Tree

variable {src : Source} {k : ScriptKind}

/-! ## The lexer -/

/-- A lexer that has the text up to a place before it. -/
structure Lexer.Reads (src : Source) (stop : Nat) (lx : Lexer) : Prop where
  le : lx.place ≤ stop
  stop_le : stop ≤ src.size
  rest : lx.rest = src.slice lx.place stop

/-- Whether a kind is one of branches, or stands for the end. -/
def isBuilt : ScriptKind → Bool
  | .statements | .expression | .attributes | .varDecl | .funcDecl | .importDecl | .exportDecl | .returnStmt
  | .ifStmt | .forStmt | .whileStmt | .jumpStmt | .exprStmt | .block | .params | .args | .array | .object
  | .property | .spread | .paren | .member | .index | .call | .newExpr | .unary | .postfixExpr | .binary
  | .ternary | .assignment | .arrowFunc | .funcExpr | .endOfTokens => true
  | _ => false

theorem ne_of_isBuilt {l : ScriptKind} (hk : isBuilt k = true) (hl : isBuilt l = false) : l ≠ k := by
  rintro rfl
  exact absurd (hk.symm.trans hl) Bool.noConfusion

/-- The groups of an embedded command belong to it. -/
theorem embedGroups_not_built (hk : isBuilt k = true) (fuel length : Nat) (cs : List Char) :
    (embedGroups fuel length cs).kind ≠ .ok k := by
  have hembed : ScriptKind.embed ≠ k := ne_of_isBuilt hk rfl
  induction fuel generalizing length cs with
  | zero => simp [embedGroups, hembed]
  | succ fuel ih =>
      unfold embedGroups
      split
      · split
        · simp
        · exact ih _ _
      · split
        · simp
        · exact ih _ _
      · split <;> simp [hembed]

/-- Neither does a word. -/
theorem wordLexeme_not_built (hk : isBuilt k = true) (before : List Char) (c : Char) (cs : List Char) :
    (wordLexeme before c cs).kind ≠ .ok k := by
  have hreserved {word : String} {l : ScriptKind} (hl : reservedWord? word = some l) : isBuilt l = false := by
    unfold reservedWord? at hl
    split at hl <;> first
      | exact absurd hl (Option.some_ne_none l).symm
      | exact Option.some.inj hl ▸ rfl
  intro h
  refine ne_of_isBuilt hk ?_ (Except.ok.inj h)
  split
  · rfl
  · cases hword : reservedWord? (String.ofList (c :: cs.takeWhile isWordPart)) with
    | none => rfl
    | some l => exact hreserved hword

/-- Nor does a number. -/
theorem numberEnd_not_built (hk : isBuilt k = true) (length : Nat) (rest : List Char) :
    (numberEnd length rest).kind ≠ .ok k := by
  have hnumber : ScriptKind.number ≠ k := ne_of_isBuilt hk rfl
  simp only [numberEnd]
  generalize (if rest.head? == some 'n' then 1 else 0) = mark
  split <;> simp [hnumber]

/-- Nor does an operator. -/
theorem operatorLexeme?_not_built (hk : isBuilt k = true) {c : Char} {cs : List Char} {token : Lexeme}
    (h : operatorLexeme? c cs = some token) : token.kind ≠ .ok k := by
  have hassign (n : Nat) (rest : List Char) : (assignable n rest).kind ≠ .ok k := by
    unfold assignable
    split <;> exact fun heq => ne_of_isBuilt hk rfl (Except.ok.inj heq)
  unfold operatorLexeme? at h
  split at h <;> first
    | exact absurd h (Option.some_ne_none token).symm
    | exact Option.some.inj h ▸ hassign _ _
    | exact Option.some.inj h ▸ fun heq => ne_of_isBuilt hk rfl (Except.ok.inj heq)
    | (split at h <;> exact Option.some.inj h ▸ fun heq => ne_of_isBuilt hk rfl (Except.ok.inj heq))

/-- **No character starts a token of a kind that is built**, or of the one that stands for the end. -/
theorem lexeme_not_built (hk : isBuilt k = true) (before : List Char) (c : Char) (cs : List Char) :
    (lexeme before c cs).kind ≠ .ok k := by
  have hembed := embedGroups_not_built hk
  have hword := wordLexeme_not_built hk before c cs
  have hnumber := numberEnd_not_built hk
  have hoperator : ∀ token, operatorLexeme? c cs = some token →
      token.kind ≠ .ok k := fun _ => operatorLexeme?_not_built hk
  have hspace : ScriptKind.space ≠ k := ne_of_isBuilt hk rfl
  have hlineComment : ScriptKind.lineComment ≠ k := ne_of_isBuilt hk rfl
  have hblockComment : ScriptKind.blockComment ≠ k := ne_of_isBuilt hk rfl
  have hstr : ScriptKind.str ≠ k := ne_of_isBuilt hk rfl
  have htemplate : ScriptKind.template ≠ k := ne_of_isBuilt hk rfl
  unfold lexeme embedLexeme stringLexeme templateLexeme numberLexeme
  grind
/-- What the next token covers, and where it leaves the lexer. -/
structure Lexer.Cut (src : Source) (stop : Nat) (lx : Lexer) (read : Node × Lexer) : Prop where
  reads : read.2.Reads src stop
  fits : read.1.Fits src
  start_eq : read.1.start = lx.place
  stop_eq : read.1.stop = read.2.place
  has_text : read.1.kind ≠ .script .endOfTokens → read.1.start < read.1.stop
  at_end : read.1.kind = .script .endOfTokens → read.1.start = stop
  shorter : read.2.rest.length ≤ lx.rest.length - 1
  of_nil : lx.rest = [] → read.1.kind = .script .endOfTokens

/-- At the end of the stretch the token covers nothing and the lexer stays where it is. -/
theorem Lexer.Reads.cut_end {stop : Nat} {lx : Lexer} (h : lx.Reads src stop) (hrest : lx.rest = []) :
    lx.Cut src stop (.leaf (.script .endOfTokens) "" ⟨lx.place, lx.place⟩, lx) := by
  have hlen := src.length_slice (i := lx.place) h.stop_le
  rw [← h.rest, hrest, List.length_nil] at hlen
  have hle := h.le
  have hplace : lx.place = stop := by omega
  have hin : lx.place ≤ src.size := Nat.le_trans hle h.stop_le
  refine ⟨h, .leaf (src.holds_empty hin), rfl, rfl, ?_, fun _ => hplace, ?_, fun _ => rfl⟩
  · intro hkind
    exact absurd rfl hkind
  · rw [hrest]
    exact Nat.zero_le _

/-- A token of some characters is cut off in front of the lexer. -/
theorem Lexer.Reads.cut_token {stop n : Nat} {lx : Lexer} {node : Node} (h : lx.Reads src stop)
    (hpos : 0 < n) (hmax : n ≤ lx.rest.length) (hspan : node.span = ⟨lx.place, lx.place + n⟩)
    (hfits : node.Fits src) (hkind : node.kind ≠ .script .endOfTokens) :
    lx.Cut src stop (node, lx.advance n) := by
  have hlen := src.length_slice (i := lx.place) h.stop_le
  rw [← h.rest] at hlen
  have hle := h.le
  have hstart : node.start = lx.place := congrArg Span.start hspan
  have hstop : node.stop = lx.place + n := congrArg Span.stop hspan
  refine ⟨⟨?_, h.stop_le, ?_⟩, hfits, hstart, hstop, ?_, fun hend => absurd hend hkind, ?_, ?_⟩
  · show lx.place + n ≤ stop
    omega
  · show lx.rest.drop n = src.slice (lx.place + n) stop
    rw [h.rest, src.slice_drop]
  · intro _
    show node.start < node.stop
    omega
  · show (lx.rest.drop n).length ≤ lx.rest.length - 1
    rw [List.length_drop]
    omega
  · intro hnil
    rw [hnil, List.length_nil] at hmax
    omega

/-- **The next token covers the text up to where the lexer stands behind it.** -/
theorem Lexer.Reads.next {stop : Nat} {lx : Lexer} (h : lx.Reads src stop) :
    lx.Cut src stop lx.next := by
  unfold Lexer.next
  split
  · rename_i hrest
    exact h.cut_end hrest
  · rename_i c cs hrest
    obtain ⟨hpos, hmax⟩ := lexeme_fits lx.before c cs
    have hkind := lexeme_not_built (k := .endOfTokens) rfl lx.before c cs
    have hlen := src.length_slice (i := lx.place) h.stop_le
    rw [← h.rest] at hlen
    rw [← List.length_cons, ← hrest] at hmax
    have hle := h.le
    have hstop := h.stop_le
    generalize lexeme lx.before c cs = token at hpos hmax hkind
    have htext : src.Holds ⟨lx.place, lx.place + token.length⟩
        (String.ofList (lx.rest.take token.length)) := by
      rw [h.rest, src.slice_take (by omega)]
      exact src.holds_text (by omega) (by omega)
    cases htoken : token.kind with
    | ok kind =>
        simp only [htoken]
        refine h.cut_token hpos hmax rfl (.leaf htext) ?_
        intro hend
        have hk : kind = .endOfTokens := by simpa [Node.kind] using hend
        rw [hk] at htoken
        exact hkind htoken
    | error message =>
        simp only [htoken]
        refine h.cut_token hpos hmax rfl (.fault htext) ?_
        intro hend
        exact absurd hend (by simp [Node.kind])

/-! ## Reading up to a token -/

/-- A token that covers the text right before where the lexer stands. -/
structure Current.Stands (src : Source) (stop : Nat) (lx : Lexer) (c : Current) : Prop where
  fits : c.node.Fits src
  stop_eq : c.node.stop = lx.place
  kind_eq : c.kind = c.node.kind
  has_text : c.kind ≠ .script .endOfTokens → c.node.start < c.node.stop
  at_end : c.kind = .script .endOfTokens → c.node.start = stop

/-- White space and comments are put aside one by one. -/
theorem readTrivia_succ (previousStop fuel : Nat) (lx : Lexer) (nodes : Array Node) (trivia : Nat)
    (newline : Bool) : readTrivia previousStop (fuel + 1) lx nodes trivia newline =
      if lx.next.1.kind.isTrivia then
        readTrivia previousStop fuel lx.next.2 (nodes.push lx.next.1) (trivia + 1)
          (newline || lx.next.1.text.toList.any isNewline)
      else (⟨lx.next.1, lx.next.1.kind, trivia, newline, previousStop⟩, lx.next.2, nodes) :=
  rfl

/-- What reading up to the next token adds to the nodes, and where it leaves the lexer. -/
structure TokenRead (src : Source) (stop previousStop : Nat) (lx : Lexer) (nodes : Array Node)
    (trivia : Nat) (result : Current × Lexer × Array Node) (more : List Node) : Prop where
  nodes_eq : result.2.2.toList = nodes.toList ++ more
  trivia_eq : result.1.trivia = trivia + more.length
  previous_eq : result.1.previousStop = previousStop
  run : Run src.Holds lx.place result.1.node.start more
  reads : result.2.1.Reads src stop
  stands : result.1.Stands src stop result.2.1
  shorter : result.2.1.rest.length ≤ lx.rest.length - 1
  at_end : lx.rest = [] → result.1.kind = .script .endOfTokens

/-- A token that is neither white space nor a comment is read at once. -/
theorem TokenRead.here {stop previousStop trivia : Nat} {lx : Lexer} {nodes : Array Node}
    {newline : Bool} (h : lx.Reads src stop) :
    TokenRead src stop previousStop lx nodes trivia
      (⟨lx.next.1, lx.next.1.kind, trivia, newline, previousStop⟩, lx.next.2, nodes) [] := by
  have hcut := h.next
  refine ⟨(List.append_nil _).symm, rfl, rfl, ?_, hcut.reads,
    ⟨hcut.fits, hcut.stop_eq, rfl, hcut.has_text, hcut.at_end⟩, hcut.shorter, hcut.of_nil⟩
  show Run src.Holds lx.place lx.next.1.start []
  rw [hcut.start_eq]
  exact Run.nil _

/-- White space and comments are added to the nodes up to the next token. -/
theorem readTrivia_spec {stop previousStop : Nat} (fuel : Nat) {lx : Lexer} (nodes : Array Node)
    (trivia : Nat) (newline : Bool) (h : lx.Reads src stop) :
    ∃ more, TokenRead src stop previousStop lx nodes trivia
      (readTrivia previousStop fuel lx nodes trivia newline) more := by
  induction fuel generalizing lx nodes trivia newline with
  | zero => exact ⟨[], .here h⟩
  | succ fuel ih =>
      rw [readTrivia_succ]
      split
      · rename_i htrivia
        have hcut := h.next
        obtain ⟨more, hmore⟩ := ih (nodes.push lx.next.1) (trivia + 1)
          (newline || lx.next.1.text.toList.any isNewline) hcut.reads
        refine ⟨lx.next.1 :: more, ?_, ?_, hmore.previous_eq, ?_, hmore.reads, hmore.stands, ?_, ?_⟩
        · rw [hmore.nodes_eq, Array.toList_push, List.append_assoc]
          rfl
        · rw [hmore.trivia_eq, List.length_cons]
          omega
        · have hrun := hmore.run
          rw [← hcut.stop_eq] at hrun
          have hall := Run.cons hcut.fits hrun
          rwa [hcut.start_eq] at hall
        · have hrest := hmore.shorter
          have hnext := hcut.shorter
          omega
        · intro hrest
          rw [hcut.of_nil hrest] at htrivia
          exact absurd htrivia (by decide)
      · exact ⟨[], .here h⟩

/-- The next token is read with what stands before it. -/
theorem readCurrent_spec {stop : Nat} {lx : Lexer} (nodes : Array Node) (h : lx.Reads src stop) :
    ∃ more, TokenRead src stop lx.place lx nodes 0 (readCurrent lx nodes) more :=
  readTrivia_spec lx.rest.length nodes 0 false h

end ComponentMarkup.Script
