import ComponentMarkup.Proofs.Script.GrammarTiling
import ComponentMarkup.Proofs.Script.SideBySide
import Mathlib.Data.List.Forall2

/-!
# Scripts are read where they stand

A script in a longer text is read by itself: the tree is the one that the script alone would have, every place
moved by what stands before it.  The lexer looks back for a dot before a word, and does not stop where the
script starts.  So this holds unless the text before the script ends in a dot that a word of the script could
follow.

Two parsers are run side by side, one on the script alone and one on the script in the longer text.

* `Neutral` — text in front of a script that leaves its words alone;
* `Parser.Moved` — a parser in a longer text;
* `moved_simulation` — the steps of the parser keep this;
* `readNamed_moved` — the tree read in a longer text is that of the script alone, moved.
-/

namespace ComponentMarkup.Script

open ComponentMarkup.Text ComponentMarkup.Tree

/-! ## Text in front of a word -/

/-- A dot in front of a word counts unless it is the last of a spread. -/
theorem followsDot_of_dot {before cs : List Char} (h : before.dropWhile isWhitespace = '.' :: cs) :
    followsDot before = (cs.take 2 != ['.', '.']) := by
  unfold followsDot
  rw [h]
  match cs with
  | [] => rfl
  | [d] => simp
  | d :: e :: es =>
      by_cases hd : d = '.' <;> by_cases he : e = '.' <;> simp [hd, he]

/-- No other character in front of a word counts. -/
theorem followsDot_of_ne {before cs : List Char} {c : Char}
    (h : before.dropWhile isWhitespace = c :: cs) (hc : c ≠ '.') : followsDot before = false := by
  unfold followsDot
  rw [h]
  split <;> simp_all

/-- Text, last character first, that does not change whether a word behind it follows a dot, whatever stands
between the two. -/
def Neutral (before : List Char) : Prop :=
  ∀ between : List Char, followsDot (between ++ before) = followsDot between

/-- Text that ends in no dot is neutral; blanks may follow its last character, and then a spread before them
is no dot either. -/
theorem Neutral.of_followsDot {before : List Char} (hdot : followsDot before = false)
    (hlast : before.head? ≠ some '.') : Neutral before := by
  intro between
  cases hrest : between.dropWhile isWhitespace with
  | nil =>
      have hblank : followsDot between = false := by
        unfold followsDot
        rw [hrest]
      have hskip : (between ++ before).dropWhile isWhitespace = before.dropWhile isWhitespace := by
        rw [List.dropWhile_append, hrest]
        rfl
      rw [hblank, ← hdot]
      unfold followsDot
      rw [hskip]
  | cons c cs =>
      have hkeep : (between ++ before).dropWhile isWhitespace = c :: (cs ++ before) := by
        rw [List.dropWhile_append, hrest]
        rfl
      by_cases hc : c = '.'
      · subst hc
        rw [followsDot_of_dot hrest, followsDot_of_dot hkeep]
        -- dots that end the text between make no spread with the last character before them
        have hspread : (cs ++ before).take 2 = ['.', '.'] ↔ cs.take 2 = ['.', '.'] := by
          match cs, before with
          | [], [] => rfl
          | [], b :: bs => simp_all
          | [d], [] => simp
          | [d], b :: bs => simp_all
          | d :: e :: es, _ => rfl
        rw [Bool.eq_iff_iff, bne_iff_ne, bne_iff_ne, Ne, Ne, not_congr hspread]
      · rw [followsDot_of_ne hrest hc, followsDot_of_ne hkeep hc]

variable {k stop : Nat} {lx ly : Lexer} {c d : Current} {p q p' q' : Parser}

/-! ## States in a longer text -/

/-- A lexer in a longer text: it has the same characters before it, stands `k` places further on, and takes
the same words for members. -/
structure Lexer.Moved (k stop : Nat) (lx ly : Lexer) : Prop where
  rest : ly.rest = lx.rest
  place : ly.place = lx.place + k
  before : ∀ read : List Char, followsDot (read ++ ly.before) = followsDot (read ++ lx.before)
  within : lx.place + lx.rest.length = stop

/-- A token in a longer text. -/
structure Current.Moved (k stop : Nat) (c d : Current) : Prop where
  node : d.node = c.node.mapPlaces (· + k)
  kind : d.kind = c.kind
  trivia : d.trivia = c.trivia
  newline : d.newline = c.newline
  previousStop : d.previousStop = c.previousStop + k
  within : c.node.start ≤ stop

/-- An arrow function in a longer text. -/
structure ArrowGroup.Moved (k stop : Nat) (g g' : ArrowGroup) : Prop where
  start : g'.start = g.start + k
  nodes : g'.nodes = g.nodes.map (Node.mapPlaces (· + k))
  lexer : g.lexer.Moved k stop g'.lexer
  current : g.current.Moved k stop g'.current

/-- **A parser in a longer text**: all its places are `k` further on. -/
structure Parser.Moved (k stop : Nat) (p q : Parser) : Prop where
  lexer : p.lexer.Moved k stop q.lexer
  current : p.current.Moved k stop q.current
  nodes : q.nodes = p.nodes.map (Node.mapPlaces (· + k))
  start : q.start = p.start + k
  depth : q.depth = p.depth
  overflow : q.overflow = p.overflow.map (· + k)
  arrows : List.Forall₂ (ArrowGroup.Moved k stop) p.arrows q.arrows
  intact : q.intact = p.intact
  within : ∀ place ∈ p.overflow, place ≤ stop

/-! ## Reading tokens -/

/-- A token depends on the text before it only by whether that ends in a dot. -/
theorem lexeme_congr {before before' : List Char} (h : followsDot before = followsDot before')
    (c : Char) (cs : List Char) : lexeme before c cs = lexeme before' c cs := by
  unfold lexeme wordLexeme
  rw [h]

theorem Lexer.Moved.advance (h : lx.Moved k stop ly) {n : Nat} (hn : n ≤ lx.rest.length) :
    (lx.advance n).Moved k stop (ly.advance n) := by
  have hwithin := h.within
  refine ⟨?_, ?_, ?_, ?_⟩
  · show ly.rest.drop n = lx.rest.drop n
    rw [h.rest]
  · show ly.place + n = lx.place + n + k
    rw [h.place, Nat.add_right_comm]
  · intro read
    show followsDot (read ++ ((ly.rest.take n).reverse ++ ly.before)) =
      followsDot (read ++ ((lx.rest.take n).reverse ++ lx.before))
    rw [h.rest, ← List.append_assoc, ← List.append_assoc]
    exact h.before _
  · show lx.place + n + (lx.rest.drop n).length = stop
    rw [List.length_drop]
    omega

/-- The next token is the same, moved. -/
theorem Lexer.Moved.next (h : lx.Moved k stop ly) :
    ly.next.1 = lx.next.1.mapPlaces (· + k) ∧ lx.next.2.Moved k stop ly.next.2 ∧
      lx.next.1.start ≤ stop := by
  have hwithin := h.within
  cases hrest : lx.rest with
  | nil =>
      have hrest' : ly.rest = [] := h.rest.trans hrest
      simp only [Lexer.next, hrest, hrest', h.place]
      refine ⟨rfl, h, ?_⟩
      show lx.place ≤ stop
      omega
  | cons c cs =>
      have hrest' : ly.rest = c :: cs := h.rest.trans hrest
      have htoken : lexeme ly.before c cs = lexeme lx.before c cs := lexeme_congr (h.before []) c cs
      have hfits := (lexeme_fits lx.before c cs).2
      rw [← List.length_cons, ← hrest] at hfits
      simp only [Lexer.next, hrest, hrest', htoken, h.place]
      refine ⟨?_, h.advance hfits, ?_⟩
      · rw [Nat.add_right_comm]
        cases (lexeme lx.before c cs).kind <;> rfl
      · have hstart : lx.place ≤ stop := by omega
        cases (lexeme lx.before c cs).kind <;> exact hstart

/-- What reading up to a token gives in a longer text. -/
structure TokenMoved (k stop : Nat) (read read' : Current × Lexer × Array Node) : Prop where
  current : read.1.Moved k stop read'.1
  lexer : read.2.1.Moved k stop read'.2.1
  nodes : read'.2.2 = read.2.2.map (Node.mapPlaces (· + k))

theorem readTrivia_moved {previousStop : Nat} (fuel : Nat) {nodes : Array Node} {trivia : Nat}
    {newline : Bool} (h : lx.Moved k stop ly) :
    TokenMoved k stop (readTrivia previousStop fuel lx nodes trivia newline)
      (readTrivia (previousStop + k) fuel ly (nodes.map (Node.mapPlaces (· + k))) trivia newline) := by
  induction fuel generalizing lx ly nodes trivia newline with
  | zero =>
      obtain ⟨hnode, hlexer, hwithin⟩ := h.next
      have hkind : ly.next.1.kind = lx.next.1.kind := by rw [hnode, Node.kind_mapPlaces]
      exact ⟨⟨hnode, hkind, rfl, rfl, rfl, hwithin⟩, hlexer, rfl⟩
  | succ fuel ih =>
      obtain ⟨hnode, hlexer, hwithin⟩ := h.next
      rw [readTrivia_succ, readTrivia_succ, hnode, Node.kind_mapPlaces, Node.text_mapPlaces]
      split
      · rw [← Array.map_push]
        exact ih hlexer
      · exact ⟨⟨rfl, rfl, rfl, rfl, rfl, hwithin⟩, hlexer, rfl⟩

theorem readCurrent_moved (nodes : Array Node) (h : lx.Moved k stop ly) :
    TokenMoved k stop (readCurrent lx nodes)
      (readCurrent ly (nodes.map (Node.mapPlaces (· + k)))) := by
  unfold readCurrent
  rw [h.rest, h.place]
  exact readTrivia_moved _ h

theorem peekKind_moved (fuel : Nat) (h : lx.Moved k stop ly) : peekKind fuel ly = peekKind fuel lx := by
  induction fuel generalizing lx ly with
  | zero =>
      obtain ⟨hnode, _⟩ := h.next
      rw [peekKind, peekKind, hnode, Node.kind_mapPlaces]
  | succ fuel ih =>
      obtain ⟨hnode, hlexer, _⟩ := h.next
      simp only [peekKind, hnode, Node.kind_mapPlaces, ih hlexer]

/-! ## Steps of the parser -/

namespace Parser.Moved

theorem mark_eq (h : p.Moved k stop q) : q.mark = p.mark := by
  unfold Parser.mark
  rw [h.nodes, Array.size_map]

theorem markBeforeTrivia_eq (h : p.Moved k stop q) : q.markBeforeTrivia = p.markBeforeTrivia := by
  unfold Parser.markBeforeTrivia
  rw [h.nodes, Array.size_map, h.current.trivia]

theorem getElem?_nodes (h : p.Moved k stop q) (i : Nat) :
    q.nodes[i]? = p.nodes[i]?.map (Node.mapPlaces (· + k)) := by
  rw [h.nodes, Array.getElem?_map]

/-- What a parser knows about arrow functions moves with it. -/
theorem knownArrow? (h : p.Moved k stop q) :
    Option.Rel (ArrowGroup.Moved k stop) p.knownArrow? q.knownArrow? := by
  unfold Parser.knownArrow?
  rw [h.current.node, Node.start_mapPlaces]
  have harrows := h.arrows
  generalize p.arrows = groups, q.arrows = groups' at harrows
  induction harrows with
  | nil => exact .none
  | @cons g g' _ _ hgroup _ ih =>
      have hsame : (g'.start == p.current.node.start + k) = (g.start == p.current.node.start) := by
        rw [hgroup.start, Bool.eq_iff_iff, beq_iff_eq, beq_iff_eq, Nat.add_right_cancel_iff]
      rw [List.find?_cons, List.find?_cons, hsame]
      split
      · exact .some hgroup
      · exact ih

theorem alike (h : p.Moved k stop q) : p.Alike q where
  kind := h.current.kind.symm
  word := by rw [h.current.node, Node.kind_mapPlaces]
  text := by rw [h.current.node, Node.text_mapPlaces]
  newline := h.current.newline.symm
  ahead := by
    funext kind
    unfold Parser.nextIs
    rw [h.lexer.rest, peekKind_moved _ h.lexer]
  mark := h.mark_eq.symm
  budget := by rw [Parser.budget, Parser.budget, h.lexer.rest]
  depth := h.depth.symm
  branch := by
    intro mark kind
    rw [h.getElem?_nodes]
    cases p.nodes[mark]? with
    | none => rfl
    | some n => simp only [Option.map_some, Option.any_some, Node.isScript, Node.kind_mapPlaces]
  known := by
    have hknown := h.knownArrow?
    generalize p.knownArrow? = group, q.knownArrow? = group' at hknown
    cases hknown <;> rfl

theorem check (h : p.Moved k stop q) (holds : Bool) : (p.check holds).Moved k stop (q.check holds) :=
  ⟨h.lexer, h.current, h.nodes, h.start, h.depth, h.overflow, h.arrows,
    congrArg (· && holds) h.intact, h.within⟩

/-- The current token is taken as the same node, moved. -/
theorem eatAs (h : p.Moved k stop q) (node : Node) :
    (p.eatAs node).Moved k stop (q.eatAs (node.mapPlaces (· + k))) := by
  have hread := readCurrent_moved (p.nodes.push node) h.lexer
  rw [Array.map_push, ← h.nodes] at hread
  exact ⟨hread.lexer, hread.current, hread.nodes, h.start, h.depth, h.overflow, h.arrows, h.intact,
    h.within⟩

theorem eat (h : p.Moved k stop q) : p.eat.Moved k stop q.eat := by
  unfold Parser.eat
  rw [h.current.node]
  exact h.eatAs _

theorem eatAll (fuel : Nat) (h : p.Moved k stop q) :
    (Parser.eatAll fuel p).Moved k stop (Parser.eatAll fuel q) := by
  induction fuel generalizing p q with
  | zero => exact h
  | succ fuel ih =>
      unfold Parser.eatAll
      rw [← h.alike.atEnd]
      split
      · exact h
      · exact ih h.eat

/-- The nodes may be replaced by others that are moved alike. -/
theorem withNodes (h : p.Moved k stop q) {nodes nodes' : Array Node}
    (hnodes : nodes' = nodes.map (Node.mapPlaces (· + k))) :
    { p with nodes := nodes }.Moved k stop { q with nodes := nodes' } :=
  ⟨h.lexer, h.current, hnodes, h.start, h.depth, h.overflow, h.arrows, h.intact, h.within⟩

theorem placeAt_eq (h : p.Moved k stop q) (mark : Nat) : q.placeAt mark = p.placeAt mark + k := by
  unfold Parser.placeAt
  rw [h.getElem?_nodes, h.start]
  split
  · rfl
  · cases p.nodes[mark - 1]? with
    | none => rfl
    | some n => exact n.stop_mapPlaces _

theorem wrap (h : p.Moved k stop q) (mark : Nat) (kind : ScriptKind) :
    (p.wrap mark kind).Moved k stop (q.wrap mark kind) := by
  unfold Parser.wrap
  dsimp only
  rw [h.markBeforeTrivia_eq, h.placeAt_eq, h.nodes, Array.size_map, h.current.trivia]
  refine (h.check _).withNodes ?_
  simp only [Array.map_append, Array.map_push, Array.map_extract, Node.branchAt_mapPlaces,
    ← Array.toList_map]

theorem faultOf_moved (n : Node) (message : String) :
    Parser.faultOf (n.mapPlaces (· + k)) message =
      (Parser.faultOf n message).mapPlaces (· + k) := by
  unfold Parser.faultOf
  rw [Node.isFault_mapPlaces, Node.fullText_mapPlaces, Node.start_mapPlaces]
  split
  · rfl
  · simp only [Node.mapPlaces, Nat.add_right_comm]

theorem expected (h : p.Moved k stop q) (thing : String) :
    (p.expected thing).Moved k stop (q.expected thing) := by
  have hfault : (q.nodes[p.markBeforeTrivia - 1]?).any Node.isFault =
      (p.nodes[p.markBeforeTrivia - 1]?).any Node.isFault := by
    rw [h.getElem?_nodes, Option.any_map]
    simp only [Node.isFault_mapPlaces]
  have hchecked := h.check (decide (p.current.trivia ≤ p.nodes.size))
  unfold Parser.expected
  dsimp only [Parser.check] at hchecked ⊢
  rw [h.markBeforeTrivia_eq, hfault, h.current.trivia, h.nodes, Array.size_map, ← h.nodes]
  split
  · exact hchecked
  · refine hchecked.withNodes ?_
    rw [h.current.previousStop, h.nodes]
    simp only [Array.map_append, Array.map_push, Array.map_extract, Node.mapPlaces]

theorem emptyFaultsStart_eq (h : p.Moved k stop q) (mark : Nat) :
    emptyFaultsStart q.nodes mark = emptyFaultsStart p.nodes mark := by
  have hsize : ∀ n : Node, ((n.mapPlaces (· + k)).isFault &&
      (n.mapPlaces (· + k)).span.size == 0) = (n.isFault && n.span.size == 0) := by
    intro n
    rw [Node.isFault_mapPlaces, Node.span_mapPlaces, Span.size, Nat.add_sub_add_right]
    rfl
  induction mark with
  | zero => rfl
  | succ mark ih =>
      unfold emptyFaultsStart
      rw [ih, h.getElem?_nodes, Option.any_map]
      simp only [hsize]

theorem trimFaults (h : p.Moved k stop q) : p.trimFaults.Moved k stop q.trimFaults := by
  unfold Parser.trimFaults
  dsimp only
  rw [h.markBeforeTrivia_eq, h.emptyFaultsStart_eq, h.nodes, Array.size_map, h.current.trivia]
  refine (h.check _).withNodes ?_
  simp only [Array.map_append, Array.map_extract]

theorem unexpected (h : p.Moved k stop q) : p.unexpected.Moved k stop q.unexpected := by
  have htrimmed := h.trimFaults
  unfold Parser.unexpected
  dsimp only
  rw [htrimmed.current.node, Node.kind_mapPlaces, faultOf_moved]
  exact htrimmed.eatAs _

theorem eatReserved (h : p.Moved k stop q) : p.eatReserved.Moved k stop q.eatReserved := by
  have htrimmed := h.trimFaults
  unfold Parser.eatReserved
  dsimp only
  rw [htrimmed.current.node, Node.kind_mapPlaces, faultOf_moved, Node.text_mapPlaces,
    Node.hint_mapPlaces]
  exact htrimmed.eatAs _

theorem closeAt (h : p.Moved k stop q) (mark : Nat) (kind : ScriptKind) :
    (p.closeAt mark kind).Moved k stop (q.closeAt mark kind) := by
  unfold Parser.closeAt
  rw [← h.alike.isAt, h.getElem?_nodes]
  split
  · exact h.eat
  · cases p.nodes[mark]? with
    | none => exact h
    | some n =>
        refine h.withNodes ?_
        rw [h.nodes, Array.map_setIfInBounds, faultOf_moved]

/-- Too deep a level is recorded at the moved place. -/
theorem enter (h : p.Moved k stop q) : p.enter.1.Moved k stop q.enter.1 := by
  unfold Parser.enter
  rw [h.depth]
  split
  · rw [← h.alike.budget]
    refine eatAll _ ⟨h.lexer, h.current, h.nodes, h.start, rfl, ?_, h.arrows, h.intact, ?_⟩
    · rw [h.current.node, Node.start_mapPlaces, h.overflow]
      cases p.overflow <;> rfl
    · intro place hplace
      cases hover : p.overflow with
      | none =>
          rw [hover] at hplace
          obtain rfl := Option.some.inj hplace
          exact h.current.within
      | some first =>
          rw [hover] at hplace
          obtain rfl := Option.some.inj hplace
          exact h.within _ hover
  · exact ⟨h.lexer, h.current, h.nodes, h.start, rfl, h.overflow, h.arrows, h.intact, h.within⟩

theorem leave (h : p.Moved k stop q) : p.leave.Moved k stop q.leave :=
  ⟨h.lexer, h.current, h.nodes, h.start, congrArg (· - 1) h.depth, h.overflow, h.arrows, h.intact,
    h.within⟩

theorem rewind (h : p.Moved k stop q) (h' : p'.Moved k stop q') :
    (p.rewind p').Moved k stop (q.rewind q') := by
  refine ⟨h'.lexer, h'.current, ?_, h.start, h.depth, h.overflow, h.arrows, ?_, h.within⟩
  · show q.nodes.extract 0 q'.mark = (p.nodes.extract 0 p'.mark).map _
    rw [h'.mark_eq, h.nodes, Array.map_extract]
  · show (q.intact && decide (q'.mark ≤ q.mark)) = (p.intact && decide (p'.mark ≤ p.mark))
    rw [h.intact, h'.mark_eq, h.mark_eq]

theorem replay (h : p.Moved k stop q) {g g' : ArrowGroup} (hgroup : g.Moved k stop g') :
    (p.replay g).Moved k stop (q.replay g') := by
  refine ⟨hgroup.lexer, hgroup.current, ?_, h.start, h.depth, h.overflow, h.arrows, h.intact, h.within⟩
  show q.nodes ++ g'.nodes.toArray = (p.nodes ++ g.nodes.toArray).map _
  rw [h.nodes, hgroup.nodes, Array.map_append, ← List.map_toArray]

theorem remember (h : p.Moved k stop q) (h' : p'.Moved k stop q') :
    (p.remember p'.current.node.start p'.mark).Moved k stop
      (q.remember q'.current.node.start q'.mark) := by
  refine ⟨h.lexer, h.current, h.nodes, h.start, h.depth, h.overflow, ?_, h.intact, h.within⟩
  refine .cons ⟨?_, ?_, h.lexer, h.current⟩ h.arrows
  · show q'.current.node.start = p'.current.node.start + k
    rw [h'.current.node, Node.start_mapPlaces]
  · show (q.nodes.extract q'.mark q.nodes.size).toList = (p.nodes.extract p'.mark p.nodes.size).toList.map _
    rw [h'.mark_eq, h.nodes, Array.size_map, ← Array.map_extract, Array.toList_map]

end Parser.Moved

/-- **Every step of the parser takes place in a longer text as it does in the script alone.** -/
theorem moved_simulation (k stop : Nat) : Simulation (Parser.Moved k stop) where
  alike h := h.alike
  check holds h := h.check holds
  eat h := h.eat
  rename _ h := by
    rw [h.current.node, Node.withKind_mapPlaces]
    exact h.eatAs _
  branch mark kind _ h := h.wrap mark kind
  expected thing h := h.expected thing
  unexpected h := h.unexpected
  eatReserved h := h.eatReserved
  closeAt mark kind h := h.closeAt mark kind
  enter h := h.enter
  leave h := h.leave
  rewind h h' := h.rewind h'
  replay h hp hq := by
    have hgroup := h.knownArrow?
    rw [hp, hq] at hgroup
    cases hgroup with
    | some hgroup => exact h.replay hgroup
  remember h h' := h.remember h'

/-! ## Scripts -/

variable {src whole : Source} {s : Span}

/-- What was read of a script in a longer text. -/
structure LimitedMoved (k stop : Nat) (read read' : Limited Node) : Prop where
  value : read'.value = read.value.mapPlaces (· + k)
  overflow : read'.overflow = read.overflow.map (· + k)
  within : ∀ place ∈ read.overflow, place ≤ stop

theorem Parser.Moved.finish (h : p.Moved k stop q) (kind : ScriptKind) :
    LimitedMoved k stop (p.finish kind) (q.finish kind) := by
  refine ⟨?_, h.overflow, h.within⟩
  show Node.branchAt _ q.start q.nodes.toList = (Node.branchAt _ p.start p.nodes.toList).mapPlaces _
  rw [Node.branchAt_mapPlaces, h.start, h.nodes, Array.toList_map]

/-- Parsers that start on the same script, once alone and once behind neutral text. -/
theorem Parser.Moved.ofSpan (hbefore : Neutral (whole.slice 0 k).reverse)
    (hpart : whole.slice k (k + src.size) = src.slice 0 src.size) :
    (Parser.ofSpan src src.whole).Moved k src.size (Parser.ofSpan whole ⟨k, k + src.size⟩) := by
  have hlexer : (Lexer.ofSpan src src.whole).Moved k src.size
      (Lexer.ofSpan whole ⟨k, k + src.size⟩) := by
    refine ⟨hpart, (Nat.zero_add k).symm, ?_, ?_⟩
    · intro read
      show followsDot (read ++ (whole.slice 0 k).reverse) = followsDot (read ++ (src.slice 0 0).reverse)
      rw [hbefore read, src.slice_self, List.reverse_nil, List.append_nil]
    · show 0 + (src.slice 0 src.size).length = src.size
      rw [src.length_slice (Nat.le_refl _)]
      omega
  have hread := readCurrent_moved #[] hlexer
  rw [Array.map_empty] at hread
  exact ⟨hread.lexer, hread.current, hread.nodes, (Nat.zero_add k).symm, rfl, rfl, .nil, rfl,
    fun place hplace => absurd hplace (Option.not_mem_none place)⟩

/-- A script behind neutral text is read as it is alone, from any entry point. -/
theorem readEntry_moved (entry : Entry) (hbefore : Neutral (whole.slice 0 k).reverse)
    (hpart : whole.slice k (k + src.size) = src.slice 0 src.size) :
    LimitedMoved k src.size (readEntry src src.whole entry)
      (readEntry whole ⟨k, k + src.size⟩ entry) := by
  have hstart := Parser.Moved.ofSpan hbefore hpart
  have sim := moved_simulation k src.size
  cases entry with
  | statements => exact (eatRest_related sim (readScript_related sim hstart)).finish .statements
  | expression => exact (eatRest_related sim (readSoleExpression_related sim hstart)).finish .expression
  | attributes => exact (eatRest_related sim (readAttributes_related sim hstart)).finish .attributes

/-- **A script behind neutral text is read as it is alone**, also from an entry point that is not known: every
place is moved by what stands before the script. -/
theorem readNamed_moved (entry : String) (hbefore : Neutral (whole.slice 0 k).reverse)
    (hpart : whole.slice k (k + src.size) = src.slice 0 src.size) :
    LimitedMoved k src.size (readNamed src src.whole entry)
      (readNamed whole ⟨k, k + src.size⟩ entry) := by
  unfold readNamed
  split
  · exact readEntry_moved _ hbefore hpart
  · refine ⟨?_, rfl, fun place hplace => absurd hplace (Option.not_mem_none place)⟩
    simp only [Node.branch, Node.spanning_mapPlaces, Source.text, hpart, Source.whole]
    simp [Node.mapPlaces, Node.start, Node.stop, Node.span, Nat.add_comm]

end ComponentMarkup.Script
