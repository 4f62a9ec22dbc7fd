import ComponentMarkup.Proofs.Script.Afresh

/-!
# Remembering arrow functions changes nothing

A group in parentheses that was read as an arrow function is remembered and put in place again where it is met
once more.  That gives the tree which reading it again would give, unless nesting gets too deep.

The parser with the memory is run beside one without.  They stand at the same tokens, though they may be nested
differently deep and different nodes may lie behind them, so long as the nodes in front are the same.  What the
memory holds is what the parser without a memory reads at the same place, whatever lies behind it there.

* `Paired` — the two parsers, some levels deep and with some tokens left; `paired_lockstep` — steps keep it;
* `ArrowGroup.Faithful` — a remembered group is what is read there afresh;
* `readGroupAfresh_abreast` — groups read from the same token are the same, wherever they are read;
* `readGoal_paired` — every goal keeps the parsers paired, by induction on how many goals deep it leads;
* `readNamed_afresh` — the same tree is read with the memory and without.
-/

namespace ComponentMarkup.Script

open ComponentMarkup.Text ComponentMarkup.Tree

variable {whole : Prop} {src : Source} {s : Span} {A B : List Node} {d e n : Nat} {p q : Parser} {read read' : Reader}

/-! ## Parsers in a pair -/

/-- Marks that are equally far behind what lies behind each of two parsers. -/
def Aligned (a b m n : Nat) : Prop :=
  ∃ i, m = a + i ∧ n = b + i

/-- A parser that took a group as it is remembered. -/
structure ArrowGroup.Gives (g : ArrowGroup) (p p' : Parser) : Prop where
  lexer : p'.lexer = g.lexer
  current : p'.current = g.current
  nodes : p'.nodes.toList = p.nodes.toList ++ g.nodes
  start_eq : p'.start = p.start
  depth : p'.depth = p.depth

/-- **A remembered group is what is read there afresh**, with whatever lies behind, at any depth and with any
fuel that is enough. -/
structure ArrowGroup.Faithful (src : Source) (s : Span) (g : ArrowGroup) : Prop where
  nodes : ∃ front trivia, g.nodes = front ++ trivia ∧ trivia.length = g.current.trivia ∧ Footed front
  afresh : ∀ {q : Parser} (fuel : Nat), q.Placed src s → q.current.node.start = g.start →
    3 * (maxDepth - q.depth) + 3 * q.remaining ≤ fuel →
    (readGroupAfresh (readGoalAfresh fuel) q).TooDeep ∨
      g.Gives q (readGroupAfresh (readGoalAfresh fuel) q) ∧
        (readGroupAfresh (readGoalAfresh fuel) q).Placed src s ∧
        (readGroupAfresh (readGoalAfresh fuel) q).remaining ≤ q.remaining

/-- Two parsers at the same token with the same nodes in front of what lies behind each, some levels deep and
with at most so many tokens left.  What the first one remembers is faithful. -/
structure Paired (whole : Prop) (src : Source) (s : Span) (A B : List Node) (d e n : Nat) (p q : Parser) :
    Prop where
  lexer : p.lexer = q.lexer
  current : p.current = q.current
  start_eq : p.start = q.start
  nodes : ∃ front trivia, p.Over whole A front trivia ∧ q.Over whole B front trivia
  depth : p.depth = d
  depth' : q.depth = e
  remaining : p.remaining ≤ n
  placed : p.Placed src s
  faithful : ∀ g ∈ p.arrows, g.Faithful src s

namespace Paired

theorem placed' (h : Paired whole src s A B d e n p q) : q.Placed src s :=
  h.placed.congr h.start_eq.symm h.current.symm h.lexer.symm

theorem sameAhead (h : Paired whole src s A B d e n p q) : p.SameAhead q := by
  refine ⟨?_, ?_, ?_, ?_, ?_, ?_⟩
  · rw [h.current]
  · rw [h.current]
  · rw [h.current]
  · unfold Parser.newline
    rw [h.current]
  · funext k
    unfold Parser.nextIs
    rw [h.lexer]
  · unfold Parser.budget
    rw [h.lexer]

theorem aligned (h : Paired whole src s A B d e n p q) : Aligned A.length B.length p.mark q.mark := by
  obtain ⟨front, trivia, hp, hq⟩ := h.nodes
  refine ⟨front.length + trivia.length, ?_, ?_⟩
  · rw [← Nat.add_assoc]
    exact hp.size_eq
  · rw [← Nat.add_assoc]
    exact hq.size_eq

/-- A step that leaves the token alone and does the same to the nodes in front keeps the pair. -/
theorem withNodes {p' q' : Parser} {front trivia : List Node} (h : Paired whole src s A B d e n p q)
    (hp : p'.Over whole A front trivia) (hq : q'.Over whole B front trivia)
    (hsame : p.OnlyNodes p') (hsame' : q.OnlyNodes q') : Paired whole src s A B d e n p' q' := by
  obtain ⟨hlexer, hcurrent, hstart, hdepth, harrows⟩ := hsame
  obtain ⟨hlexer', hcurrent', hstart', hdepth', _⟩ := hsame'
  refine ⟨by rw [hlexer, hlexer', h.lexer], by rw [hcurrent, hcurrent', h.current],
    by rw [hstart, hstart', h.start_eq], ⟨front, trivia, hp, hq⟩, hdepth.trans h.depth,
    hdepth'.trans h.depth', ?_, h.placed.congr hstart hcurrent hlexer, ?_⟩
  · unfold Parser.remaining Parser.atEnd Parser.isAt
    rw [hlexer, hcurrent]
    exact h.remaining
  · rw [harrows]
    exact h.faithful

theorem eatAs (h : Paired whole src s A B d e n p q) (node : Node) :
    Paired whole src s A B d e (n - 1) (p.eatAs node) (q.eatAs node) := by
  obtain ⟨front, trivia, hp, hq⟩ := h.nodes
  have hq' := hq.eatAs node
  rw [← h.lexer] at hq'
  refine ⟨?_, ?_, h.start_eq, ⟨_, _, hp.eatAs node, hq'⟩, h.depth, h.depth', ?_, h.placed.eatAs node,
    h.faithful⟩
  · rw [p.eatAs_lexer, q.eatAs_lexer, h.lexer]
  · rw [p.eatAs_current, q.eatAs_current, h.lexer]
  · exact (h.placed.remaining_eatAs node).trans (Nat.sub_le_sub_right h.remaining 1)

theorem mono {n' : Nat} (h : Paired whole src s A B d e n p q) (hle : n ≤ n') : Paired whole src s A B d e n' p q :=
  ⟨h.lexer, h.current, h.start_eq, h.nodes, h.depth, h.depth', h.remaining.trans hle, h.placed, h.faithful⟩

theorem wrap {m i : Nat} (h : Paired whole src s A B d e n p q) (hmark : Aligned A.length B.length m i)
    (k : ScriptKind) : Paired whole src s A B d e n (p.wrap m k) (q.wrap i k) := by
  obtain ⟨front, trivia, hp, hq⟩ := h.nodes
  obtain ⟨i, rfl, rfl⟩ := hmark
  have hq' := hq.wrap i k
  rw [← h.start_eq] at hq'
  exact h.withNodes (hp.wrap i k) hq' (p.wrap_onlyNodes _ k) (q.wrap_onlyNodes _ k)

theorem expected (h : Paired whole src s A B d e n p q) (thing : String) :
    Paired whole src s A B d e n (p.expected thing) (q.expected thing) := by
  obtain ⟨front, trivia, hp, hq⟩ := h.nodes
  have hq' := hq.expected thing
  rw [← h.current] at hq'
  exact h.withNodes (hp.expected thing) hq' (p.expected_onlyNodes thing) (q.expected_onlyNodes thing)

theorem trimFaults (h : Paired whole src s A B d e n p q) : Paired whole src s A B d e n p.trimFaults q.trimFaults := by
  obtain ⟨front, trivia, hp, hq⟩ := h.nodes
  exact h.withNodes hp.trimFaults hq.trimFaults p.trimFaults_onlyNodes q.trimFaults_onlyNodes

theorem check (h : Paired whole src s A B d e n p q) (holds : Bool) :
    Paired whole src s A B d e n (p.check holds) (q.check holds) := by
  obtain ⟨front, trivia, hp, hq⟩ := h.nodes
  exact h.withNodes ⟨hp.nodes, hp.trivia_eq, hp.footed⟩ ⟨hq.nodes, hq.trivia_eq, hq.footed⟩
    (p.check_onlyNodes holds) (q.check_onlyNodes holds)

theorem eat (h : Paired whole src s A B d e n p q) : Paired whole src s A B d e (n - 1) p.eat q.eat := by
  unfold Parser.eat
  rw [← h.current]
  exact h.eatAs _

theorem eatKnown (h : Paired whole src s A B d e n p q) (k : ScriptKind) :
    Paired whole src s A B d e (n - 1) (p.eatKnown k) (q.eatKnown k) := by
  unfold Parser.eatKnown
  rw [h.sameAhead.isAt k]
  exact (h.check _).eat

theorem closeAt {m i : Nat} (h : Paired whole src s A B d e n p q) (hmark : Aligned A.length B.length m i)
    (k : ScriptKind) : Paired whole src s A B d e n (p.closeAt m k) (q.closeAt i k) := by
  obtain ⟨front, trivia, hp, hq⟩ := h.nodes
  obtain ⟨i, rfl, rfl⟩ := hmark
  have hat := h.sameAhead.isAt k
  by_cases hk : p.isAt k
  · have hclosed := h.eat.mono (Nat.sub_le n 1)
    unfold Parser.closeAt
    rwa [if_pos hk, if_pos (hat ▸ hk)]
  · have hk' : ¬ q.isAt k := hat ▸ hk
    exact h.withNodes (hp.closeAt i hk) (hq.closeAt i hk') (Parser.closeAt_onlyNodes hk _)
      (Parser.closeAt_onlyNodes hk' _)

theorem isFunction {m i : Nat} (h : Paired whole src s A B d e n p q) (hmark : Aligned A.length B.length m i) :
    (p.nodes[m]?).any (·.isScript .funcExpr) = (q.nodes[i]?).any (·.isScript .funcExpr) := by
  obtain ⟨front, trivia, hp, hq⟩ := h.nodes
  obtain ⟨i, rfl, rfl⟩ := hmark
  rw [hp.getElem?, hq.getElem?]

end Paired

/-- **The steps of the parser keep two parsers paired**, and any branches may be made. -/
theorem paired_lockstep (whole : Prop) (src : Source) (s : Span) (A B : List Node) (d e n : Nat) :
    Lockstep Parser.TooDeep (Paired whole src s A B d e n) (Aligned A.length B.length) where
  beyond := tooDeep_beyond
  ahead h := h.sameAhead
  mark h := h.aligned
  isFunction hmark h := h.isFunction hmark
  check holds h := h.check holds
  eat h := h.eat.mono (Nat.sub_le n 1)
  rename {p q} _ h := by
    rw [← h.current]
    exact (h.eatAs _).mono (Nat.sub_le n 1)
  wrap _ hmark h := h.wrap hmark _
  expected thing h := h.expected thing
  unexpected {p q} h := by
    have htrim := h.trimFaults
    unfold Parser.unexpected
    dsimp only
    rw [← htrim.current]
    exact (htrim.eatAs _).mono (Nat.sub_le n 1)
  eatReserved {p q} h := by
    have htrim := h.trimFaults
    unfold Parser.eatReserved
    dsimp only
    rw [← htrim.current]
    exact (htrim.eatAs _).mono (Nat.sub_le n 1)
  closeAt k hmark h := h.closeAt hmark k

theorem paired_wrapsAll (whole : Prop) (src : Source) (s : Span) (A B : List Node) (d e n : Nat) :
    WrapsAll (Paired whole src s A B d e n) (Aligned A.length B.length) :=
  fun _ hmark h => h.wrap hmark _

/-! ## Groups -/

/-- Two parsers at the opening parenthesis of one group, with everything before it behind them. -/
structure AtGroup (src : Source) (s : Span) (A B : List Node) (d e n : Nat) (p q : Parser) : Prop where
  lexer : p.lexer = q.lexer
  node : p.current.node = q.current.node
  kind : p.current.kind = q.current.kind
  opens : p.isAt .leftParen = true
  nodes : p.nodes.toList = A
  nodes' : q.nodes.toList = B
  depth : p.depth = d
  depth' : q.depth = e
  remaining : p.remaining ≤ n + 1
  placed : p.Placed src s
  placed' : q.Placed src s
  faithful : ∀ g ∈ p.arrows, g.Faithful src s

namespace AtGroup

theorem opens' (h : AtGroup src s A B d e n p q) : q.isAt .leftParen = true := by
  have hopens := h.opens
  unfold Parser.isAt at hopens ⊢
  rwa [← h.kind]

theorem aligned (h : AtGroup src s A B d e n p q) : Aligned A.length B.length p.mark q.mark :=
  ⟨0, by rw [← h.nodes]; rfl, by rw [← h.nodes']; rfl⟩

/-- Taking the parenthesis puts it in front of everything else. -/
theorem eat (h : AtGroup src s A B d e n p q) : Paired False src s A B d e n p.eat q.eat := by
  have hfirm := h.placed.firm (fun heq => ScriptKind.noConfusion heq) h.opens
  have hp := p.over_eat False hfirm
  have hq := q.over_eat False hfirm
  rw [h.nodes] at hp
  rw [h.nodes', ← h.lexer] at hq
  have htaken := h.placed.remaining_eatAs p.current.node
  have hleft := h.remaining
  unfold Parser.eat
  rw [← h.node]
  refine ⟨?_, ?_, h.placed.start_eq.trans h.placed'.start_eq.symm, ⟨_, _, hp, hq⟩, h.depth, h.depth',
    by omega, h.placed.eatAs _, h.faithful⟩
  · rw [p.eatAs_lexer, q.eatAs_lexer, h.lexer]
  · rw [p.eatAs_current, q.eatAs_current, h.lexer]

theorem check (h : AtGroup src s A B d e n p q) (holds holds' : Bool) :
    AtGroup src s A B d e n (p.check holds) (q.check holds') :=
  ⟨h.lexer, h.node, h.kind, h.opens, h.nodes, h.nodes', h.depth, h.depth', h.remaining, h.placed.congr rfl rfl rfl,
    h.placed'.congr rfl rfl rfl, h.faithful⟩

/-- The parenthesis opens a group for both. -/
theorem opening : Opening (AtGroup src s A B d e n) (Paired False src s A B d e n)
    (Aligned A.length B.length) :=
  ⟨aligned, eat, fun _ h => (h.check _ _).eat⟩

/-- The parenthesis that is expected is there. -/
theorem expect : BothInStep Parser.TooDeep (AtGroup src s A B d e n) (Paired False src s A B d e n)
    (·.expect .leftParen) (·.expect .leftParen) := by
  have hlost := (paired_lockstep False src s A B d e n).expect .leftParen
  refine ⟨hlost.left, hlost.right, fun {p q} h => .inr (.inr ?_)⟩
  have hp : p.expect .leftParen = (p.eat, true) := by rw [Parser.expect, if_pos h.opens]
  have hq : q.expect .leftParen = (q.eat, true) := by rw [Parser.expect, if_pos h.opens']
  rw [hp, hq]
  exact ⟨h.eat, rfl⟩

/-- Two parsers that read on may go back. -/
theorem rewind {later later' : Parser} (h : AtGroup src s A B d e n p q)
    (hlater : Paired False src s A B d e n later later') :
    AtGroup src s A B d e n (later.rewind p) (later'.rewind q) := by
  obtain rfl := h.nodes
  obtain rfl := h.nodes'
  obtain ⟨front, trivia, hp, hq⟩ := hlater.nodes
  exact ⟨h.lexer, h.node, h.kind, h.opens, hp.rewind_nodes, hq.rewind_nodes, hlater.depth, hlater.depth',
    h.remaining, h.placed.congr (hlater.placed.start_eq.trans h.placed.start_eq.symm) rfl rfl,
    h.placed'.congr (hlater.placed'.start_eq.trans h.placed'.start_eq.symm) rfl rfl, hlater.faithful⟩

end AtGroup

/-- What follows the elements of a group: nothing, or the parameters and the body of an arrow function. -/
def finishGroup (read : Reader) (earlier later : Parser) : Parser :=
  if !isAtArrow later then later.wrap earlier.mark .paren
  else (readArrowBody read ((readParameters read (later.rewind earlier)).require .arrow)).wrap earlier.mark
    .arrowFunc

theorem readGroupAfresh_eq (read : Reader) (p : Parser) :
    readGroupAfresh read p = finishGroup read p (readElements read p) :=
  rfl

/-- **Groups read from the same token are the same**, whatever lies behind them and however deep they are nested.
The parsers may read goals in different ways that keep them paired. -/
theorem readGroupAfresh_abreast
    (hread : ReadersInStep Parser.TooDeep (Paired False src s A B d e n) read read')
    (h : AtGroup src s A B d e n p q) :
    Abreast Parser.TooDeep (Paired False src s A B d e n) (readGroupAfresh read p)
      (readGroupAfresh read' q) := by
  have lock := paired_lockstep False src s A B d e n
  have hwrap (k : ScriptKind) : InStep Parser.TooDeep (Paired False src s A B d e n)
      (Paired False src s A B d e n) (·.wrap p.mark k) (·.wrap q.mark k) :=
    .of (fun h => h) (fun h => h) fun hlater => hlater.wrap h.aligned k
  have hrewind : InStep Parser.TooDeep (Paired False src s A B d e n) (AtGroup src s A B d e n)
      (·.rewind p) (·.rewind q) :=
    .of (fun h => h) (fun h => h) fun hlater => h.rewind hlater
  have harrow := (((hrewind.andThen (readParametersFrom_inStep lock hread AtGroup.aligned AtGroup.expect)).andThen
    (lock.require .arrow)).andThen (readArrowBody_inStep lock hread)).andThen (hwrap .arrowFunc)
  have hfinish : InStep Parser.TooDeep (Paired False src s A B d e n) (Paired False src s A B d e n)
      (finishGroup read p) (finishGroup read' q) :=
    .ite (fun h => congrArg Bool.not (lock.ahead h).isAtArrow) (hwrap .paren) harrow
  rw [readGroupAfresh_eq, readGroupAfresh_eq]
  rcases (readElements_inStep lock hread AtGroup.opening).keeps h with hlost | hlost | hlater
  · exact .inl (hfinish.left hlost)
  · exact .inr (.inl (hfinish.right hlost))
  · exact hfinish.keeps hlater

/-! ## Remembering -/

namespace Paired

theorem atGroup (h : Paired whole src s A B d e n p q) (hopens : p.isAt .leftParen = true) {n' : Nat}
    (hn : p.remaining ≤ n' + 1) :
    AtGroup src s p.nodes.toList q.nodes.toList d e n' p q :=
  ⟨h.lexer, by rw [h.current], by rw [h.current], hopens, rfl, rfl, h.depth, h.depth', hn, h.placed, h.placed',
    h.faithful⟩

/-- What was read with everything before it behind is read with less behind. -/
theorem resume {p' q' : Parser} {n' : Nat} (h : Paired whole src s A B d e n p q)
    (h' : Paired False src s p.nodes.toList q.nodes.toList d e n' p' q') :
    Paired whole src s A B d e n' p' q' := by
  obtain ⟨front, trivia, hp, hq⟩ := h.nodes
  obtain ⟨more, rest, hp', hq'⟩ := h'.nodes
  exact ⟨h'.lexer, h'.current, h'.start_eq, ⟨_, rest, hp.resume hp', hq.resume hq'⟩, h'.depth, h'.depth',
    h'.remaining, h'.placed, h'.faithful⟩

/-- What is remembered does not matter to what is read, so long as it is faithful. -/
theorem remember {start mark : Nat} (h : Paired whole src s A B d e n p q)
    (hfaithful : ∀ g ∈ (p.remember start mark).arrows, g.Faithful src s) :
    Paired whole src s A B d e n (p.remember start mark) q := by
  obtain ⟨front, trivia, hp, hq⟩ := h.nodes
  exact ⟨h.lexer, h.current, h.start_eq, ⟨front, trivia, ⟨hp.nodes, hp.trivia_eq, hp.footed⟩, hq⟩, h.depth,
    h.depth', h.remaining, h.placed.congr rfl rfl rfl, hfaithful⟩

/-- A remembered group is put in place beside one that is read. -/
theorem replay {g : ArrowGroup} {q' : Parser} (h : Paired whole src s A B d e n p q) (hg : g.Faithful src s)
    (hgives : g.Gives q q') (hplaced : q'.Placed src s) (hremaining : q'.remaining ≤ q.remaining) :
    Paired whole src s A B d e n (p.replay g) q' := by
  obtain ⟨front, trivia, hp, hq⟩ := h.nodes
  obtain ⟨more, rest, hnodes, hrest, hfooted⟩ := hg.nodes
  have hp' : (p.replay g).Over False p.nodes.toList more rest := by
    refine ⟨?_, hrest, .inr hfooted⟩
    show (p.nodes ++ g.nodes.toArray).toList = _
    rw [Array.toList_append, hnodes, List.append_assoc]
  have hq' : q'.Over False q.nodes.toList more rest := by
    refine ⟨?_, ?_, .inr hfooted⟩
    · rw [hgives.nodes, hnodes, List.append_assoc]
    · rw [hgives.current]
      exact hrest
  have hsame : (p.replay g).remaining = q'.remaining := by
    unfold Parser.remaining Parser.atEnd Parser.isAt
    rw [hgives.lexer, hgives.current]
    rfl
  have hbefore : q.remaining = p.remaining := by
    unfold Parser.remaining Parser.atEnd Parser.isAt
    rw [h.lexer, h.current]
  refine ⟨hgives.lexer.symm, hgives.current.symm, h.start_eq.trans hgives.start_eq.symm,
    ⟨_, rest, hp.resume hp', hq.resume hq'⟩, h.depth, hgives.depth.trans h.depth', ?_,
    hplaced.congr (h.start_eq.trans hgives.start_eq.symm) hgives.current.symm hgives.lexer.symm, h.faithful⟩
  rw [hsame]
  exact hremaining.trans (hbefore ▸ h.remaining)

end Paired

/-- Readers that agree however many nodes lie behind, and however deep the second is nested, as far as the tokens
that are left lead. -/
def ReadsAlike (src : Source) (s : Span) (d n : Nat) (read : Reader) : Prop :=
  ∀ {A B : List Node} {e n' : Nat} (fuel : Nat), n' ≤ n → 3 * (maxDepth - e) + 3 * (n' + 1) ≤ fuel →
    ReadersInStep Parser.TooDeep (Paired False src s A B d e n') read (readGoalAfresh fuel)

/-- The nodes that are remembered are those in front of what was behind. -/
theorem remembered_nodes {later : Parser} {front trivia : List Node}
    (h : later.Over False p.nodes.toList front trivia) :
    (later.nodes.extract p.mark later.nodes.size).toList = front ++ trivia := by
  have hsize : later.nodes.size = p.nodes.size + (front ++ trivia).length := by
    rw [h.size_eq, Array.length_toList, List.length_append, Nat.add_assoc]
  rw [Array.toList_extract, List.extract_eq_take_drop, h.nodes, hsize, Parser.mark, Nat.add_sub_cancel_left,
    List.append_assoc, ← Array.length_toList, List.drop_left, List.take_length]

theorem Paired.remaining_eq (h : Paired whole src s A B d e n p q) : q.remaining = p.remaining := by
  unfold Parser.remaining Parser.atEnd Parser.isAt
  rw [h.lexer, h.current]

/-- **An arrow function that was just read is remembered faithfully.** -/
theorem remember_faithful (hread : ReadsAlike src s d n read) (hplaced : p.Placed src s)
    (hopens : p.isAt .leftParen = true) (hdepth : p.depth = d) (hn : p.remaining ≤ n + 1)
    (hfaithful : ∀ g ∈ p.arrows, g.Faithful src s) (hlevel : ¬ (readGroupAfresh read p).TooDeep)
    (hafresh : Paired False src s p.nodes.toList B d e n (readGroupAfresh read p) q) :
    ∀ g ∈ ((readGroupAfresh read p).remember p.current.node.start p.mark).arrows, g.Faithful src s := by
  intro g hg
  rcases List.mem_cons.mp hg with rfl | hg
  · constructor
    · obtain ⟨front, trivia, hp, _⟩ := hafresh.nodes
      exact ⟨front, trivia, remembered_nodes hp, hp.trivia_eq, hp.footed.resolve_left fun h => h.1⟩
    · -- whoever stands at this place stands at the same token, and so reads the same group
      intro q fuel hq hstart hfuel
      obtain ⟨hnode, hkind, hlexer⟩ := hplaced.token_unique hq hstart.symm
      have hpos := p.remaining_pos (fun heq => ScriptKind.noConfusion heq) hopens
      have hsame : q.remaining = p.remaining := by
        unfold Parser.remaining Parser.atEnd Parser.isAt
        rw [hlexer, hkind]
      have hgroup : AtGroup src s p.nodes.toList q.nodes.toList d q.depth (p.remaining - 1) p q :=
        ⟨hlexer, hnode, hkind, hopens, rfl, rfl, hdepth, rfl, by omega, hplaced, hq, hfaithful⟩
      rcases readGroupAfresh_abreast (hread fuel (by omega) (by omega)) hgroup with hlost | hlost | hread
      · exact absurd hlost hlevel
      · exact .inl hlost
      · refine .inr ⟨⟨hread.lexer.symm, hread.current.symm, ?_, ?_, hread.depth'⟩, hread.placed', ?_⟩
        · obtain ⟨front, trivia, hp, hq⟩ := hread.nodes
          rw [hq.nodes, List.append_assoc, ← remembered_nodes hp]
        · exact hread.placed'.start_eq.trans hq.start_eq.symm
        · rw [hread.remaining_eq, hsame]
          exact hread.remaining.trans (Nat.sub_le _ _)
  · exact hafresh.faithful g hg

/-! ## Goals -/

theorem readGroup_known {g : ArrowGroup} (hknown : p.knownArrow? = some g) :
    readGroup read p = p.replay g := by
  simp only [readGroup, hknown]

theorem readGroup_new (hknown : p.knownArrow? = none) :
    readGroup read p = if !isAtArrow (readElements read p) then readGroupAfresh read p
      else (readGroupAfresh read p).remember p.current.node.start p.mark := by
  simp only [readGroup, hknown, readGroupAfresh]
  split <;> rfl

/-- **A group is the same whether it is remembered or read afresh.** -/
theorem readGroup_abreast {fuel : Nat} (hread : ReadsAlike src s d n read)
    (hfuel : 3 * (maxDepth - e) + 3 * (n + 1) ≤ fuel) (h : Paired whole src s A B d e (n + 1) p q)
    (hopens : p.isAt .leftParen = true) :
    Abreast Parser.TooDeep (Paired whole src s A B d e (n + 1)) (readGroup read p)
      (readGroupAfresh (readGoalAfresh fuel) q) := by
  cases hknown : p.knownArrow? with
  | some g =>
      rw [readGroup_known hknown]
      have hstart := List.find?_some hknown
      rw [beq_iff_eq] at hstart
      have hg := h.faithful g (List.mem_of_find?_eq_some hknown)
      have henough : 3 * (maxDepth - q.depth) + 3 * q.remaining ≤ fuel := by
        have hleft := h.remaining
        rw [h.depth', h.remaining_eq]
        omega
      rcases hg.afresh fuel h.placed' (by rw [← h.current, hstart]) henough with
        hlost | ⟨hgives, hplaced, hremaining⟩
      · exact .inr (.inl hlost)
      · exact .of (h.replay hg hgives hplaced hremaining)
  | none =>
      rw [readGroup_new hknown]
      have hgroup := readGroupAfresh_abreast (hread fuel (Nat.le_refl n) hfuel) (h.atGroup hopens h.remaining)
      by_cases hlevel : (readGroupAfresh read p).TooDeep
      · refine .inl ?_
        split
        · exact hlevel
        · exact hlevel
      · rcases hgroup with hlost | hlost | hafresh
        · exact absurd hlost hlevel
        · exact .inr (.inl hlost)
        · have hwhole := (h.resume hafresh).mono (Nat.le_succ n)
          refine .of ?_
          split
          · exact hwhole
          · exact hwhole.remember (remember_faithful hread h.placed hopens h.depth h.remaining h.faithful
              hlevel hafresh)

/-- Taking the first token of a primary expression or an object leaves one token less. -/
theorem Paired.opening (whole : Prop) (src : Source) (s : Span) (A B : List Node) (d e n : Nat) :
    Opening (Paired whole src s A B d e (n + 1)) (Paired whole src s A B d e n)
      (Aligned A.length B.length) :=
  ⟨fun h => h.aligned, fun h => h.eat, fun k h => h.eatKnown k⟩

/-- At the end of the tokens there is no primary expression. -/
theorem Paired.readPrimary_atEnd (h : Paired whole src s A B d e 0 p q) :
    Paired whole src s A B d e 0 (readPrimary read p) (readPrimaryAfresh read' q) := by
  have hend : p.kind? = some .endOfTokens := by
    have hleft := h.remaining
    unfold Parser.remaining at hleft
    split at hleft
    · rename_i hend
      unfold Parser.kind?
      rw [eq_of_beq hend]
      rfl
    · exact absurd hleft (Nat.not_succ_le_zero _)
  unfold readPrimaryAfresh readPrimary
  rw [← h.sameAhead.kind?, hend]
  exact h.expected _

/-- A primary expression keeps the parsers paired if goals behind its first token do, and an object here. -/
theorem readPrimary_abreast {fuel : Nat} (hagree : ReadsAlike src s d n read)
    (hfuel : 3 * (maxDepth - e) + 3 * (n + 1) ≤ fuel)
    (hread : ReadersInStep Parser.TooDeep (Paired whole src s A B d e n) read (readGoalAfresh fuel))
    (hobject : p.isAt .leftBrace = true → Abreast Parser.TooDeep (Paired whole src s A B d e (n + 1))
      (read .object p) (readGoalAfresh fuel .object q))
    (h : Paired whole src s A B d e (n + 1) p q) :
    Abreast Parser.TooDeep (Paired whole src s A B d e (n + 1)) (readPrimary read p)
      (readPrimaryAfresh (readGoalAfresh fuel) q) := by
  have lock := paired_lockstep whole src s A B d e n
  have first := Paired.opening whole src s A B d e n
  have frame := lock.framing first
  have hmono {p' q' : Parser} (h : Abreast Parser.TooDeep (Paired whole src s A B d e n) p' q') :
      Abreast Parser.TooDeep (Paired whole src s A B d e (n + 1)) p' q' :=
    h.map fun h => h.mono (Nat.le_succ n)
  have hkind := h.sameAhead.kind?
  by_cases hparen : p.kind? = some .leftParen
  · have hgroup := readGroup_abreast hagree hfuel h (Parser.isAt_of_kind? hparen)
    unfold readPrimary readPrimaryAfresh
    rw [← hkind, hparen]
    exact hgroup
  · have hsame : readPrimaryAfresh (readGoalAfresh fuel) q = readPrimary (readGoalAfresh fuel) q := by
      unfold readPrimaryAfresh
      rw [← hkind]
      split
      · exact absurd ‹_› hparen
      · rfl
    have hnext := hmono ((first.next tooDeep_beyond).keeps h)
    rw [hsame]
    unfold readPrimary
    rw [← hkind]
    split
    · exact hmono ((readName_inStep lock hread frame).keeps h)
    · exact hmono ((readAsync_inStep lock hread frame).keeps h)
    · exact absurd ‹_› hparen
    · exact hmono ((readArray_inStep lock hread frame).keeps h)
    · exact hobject (Parser.isAt_of_kind? ‹_›)
    · exact hmono ((readFunctionExpression_inStep lock hread frame).keeps h)
    · exact hmono ((readNew_inStep lock hread
        (readCallee_inStep lock hread (paired_wrapsAll whole src s A B d e n)) frame).keeps h)
    · exact hnext
    · exact hnext
    · exact hnext
    · exact hnext
    · exact hnext
    · exact hnext
    · exact hnext
    · exact .of (h.expected _)

/-- Entering a level of nesting keeps the parsers paired, unless the limit is reached. -/
theorem Paired.enter (h : Paired whole src s A B d e n p q) (hd : d < maxDepth) (he : e < maxDepth) :
    p.enter.2 = true ∧ q.enter.2 = true ∧ Paired whole src s A B (d + 1) (e + 1) n p.enter.1 q.enter.1 := by
  obtain ⟨front, trivia, hp, hq⟩ := h.nodes
  rw [Parser.enter_eq (h.depth ▸ hd), Parser.enter_eq (h.depth' ▸ he)]
  exact ⟨rfl, rfl, h.lexer, h.current, h.start_eq, ⟨front, trivia, ⟨hp.nodes, hp.trivia_eq, hp.footed⟩,
    ⟨hq.nodes, hq.trivia_eq, hq.footed⟩⟩, congrArg (· + 1) h.depth, congrArg (· + 1) h.depth', h.remaining,
    h.placed.congr rfl rfl rfl, h.faithful⟩

theorem Paired.leave (h : Paired whole src s A B (d + 1) (e + 1) n p q) :
    Paired whole src s A B d e n p.leave q.leave := by
  obtain ⟨front, trivia, hp, hq⟩ := h.nodes
  exact ⟨h.lexer, h.current, h.start_eq, ⟨front, trivia, ⟨hp.nodes, hp.trivia_eq, hp.footed⟩,
    ⟨hq.nodes, hq.trivia_eq, hq.footed⟩⟩, congrArg (· - 1) h.depth, congrArg (· - 1) h.depth', h.remaining,
    h.placed.congr rfl rfl rfl, h.faithful⟩

/-- What is read one level deeper keeps the parsers paired. -/
theorem Paired.nested {f g : Parser → Parser} (h : Paired whole src s A B d e n p q)
    (hinner : d < maxDepth → e < maxDepth → ∀ {p q}, Paired whole src s A B (d + 1) (e + 1) n p q →
      Abreast Parser.TooDeep (Paired whole src s A B (d + 1) (e + 1) n) (f p) (g q)) :
    Abreast Parser.TooDeep (Paired whole src s A B d e n)
      (if p.enter.2 then (f p.enter.1).leave else p.enter.1)
      (if q.enter.2 then (g q.enter.1).leave else q.enter.1) := by
  by_cases hd : maxDepth ≤ p.depth
  · obtain ⟨hdeep, hin⟩ := Parser.enter_tooDeep hd
    rw [hin]
    exact .inl hdeep
  · by_cases he : maxDepth ≤ q.depth
    · obtain ⟨hdeep, hin⟩ := Parser.enter_tooDeep he
      rw [hin]
      exact .inr (.inl hdeep)
    · rw [h.depth, Nat.not_le] at hd
      rw [h.depth', Nat.not_le] at he
      obtain ⟨hp, hq, hin⟩ := h.enter hd he
      rw [hp, hq]
      rcases hinner hd he hin with hlost | hlost | hnext
      · exact .inl hlost
      · exact .inr (.inl hlost)
      · exact .of hnext.leave

/-- **Every goal keeps a parser with the memory and one without paired**, as long as the fuel is enough for what
the goal can lead to. -/
theorem readGoal_paired (fuel fuel' : Nat) (goal : Goal) (hcost : goal.cost d n ≤ fuel)
    (hcost' : goal.cost e n ≤ fuel') (h : Paired whole src s A B d e n p q)
    (hobject : goal = .object → p.isAt .leftBrace = true) :
    Abreast Parser.TooDeep (Paired whole src s A B d e n) (readGoal fuel goal p)
      (readGoalAfresh fuel' goal q) := by
  induction fuel generalizing fuel' goal whole A B d e n p q with
  | zero => exact absurd hcost (by unfold Goal.cost; omega)
  | succ fuel ih =>
      cases fuel' with
      | zero => exact absurd hcost' (by unfold Goal.cost; omega)
      | succ fuel' =>
          have hreaders {whole : Prop} {A B : List Node} {d e n fuel' : Nat}
              (hcost : ∀ goal : Goal, goal.cost d n ≤ fuel) (hcost' : ∀ goal : Goal, goal.cost e n ≤ fuel') :
              ReadersInStep Parser.TooDeep (Paired whole src s A B d e n) (readGoal fuel)
                (readGoalAfresh fuel') :=
            ⟨fun goal {_} h => (readGoal_related tooDeep_simulation fuel).tooDeep goal h,
              fun goal {_} h => (readGoalAfresh_related tooDeep_simulation fuel').tooDeep goal h,
              fun goal {_ _} h hobject => ih fuel' goal (hcost goal) (hcost' goal) h hobject⟩
          have hdeeper {whole : Prop} {A B : List Node} (hd : d < maxDepth) (he : e < maxDepth)
              (hcost : 3 * (maxDepth - d) + 3 * n ≤ fuel) (hcost' : 3 * (maxDepth - e) + 3 * n ≤ fuel') :
              ReadersInStep Parser.TooDeep (Paired whole src s A B (d + 1) (e + 1) n) (readGoal fuel)
                (readGoalAfresh fuel') :=
            hreaders (fun goal => (goal.cost_enter hd).trans hcost) fun goal => (goal.cost_enter he).trans hcost'
          unfold Goal.cost at hcost hcost'
          cases goal with
          | statement =>
              exact h.nested fun hd he {_ _} hin => readStatementHere_abreast (paired_lockstep ..)
                (hdeeper hd he (by omega) (by omega)) hin
          | expression power =>
              have hoperands (hd : d < maxDepth) (he : e < maxDepth) := readOperands_inStep
                (paired_lockstep whole src s A B (d + 1) (e + 1) n) (hdeeper hd he (by omega) (by omega))
                (paired_wrapsAll whole src s A B (d + 1) (e + 1) n) power
              have hnested := h.nested fun hd he {_ _} hin => (hoperands hd he).keeps hin
              exact hnested
          | primary =>
              cases n with
              | zero => exact .of (h.readPrimary_atEnd)
              | succ n =>
                  have hrank : Goal.primary.rank = 1 := rfl
                  have hcheap {d : Nat} : Goal.object.cost d (n + 1) = 3 * (maxDepth - d) + 3 * (n + 1) + 1 :=
                    rfl
                  refine readPrimary_abreast (fun fuel'' hle henough => ?_) (by omega) ?_ (fun hbrace => ?_) h
                  · exact hreaders (fun goal => goal.cost_eat.trans (by omega)) fun goal =>
                      goal.cost_eat.trans henough
                  · exact hreaders (fun goal => goal.cost_eat.trans (by omega)) fun goal =>
                      goal.cost_eat.trans (by omega)
                  · exact ih fuel' .object (by rw [hcheap]; omega) (by rw [hcheap]; omega) h fun _ => hbrace
          | object =>
              have hpos := p.remaining_pos (fun heq => ScriptKind.noConfusion heq) (hobject rfl)
              have hleft := h.remaining
              cases n with
              | zero => omega
              | succ n =>
                  have hread : ReadersInStep Parser.TooDeep (Paired whole src s A B d e n) (readGoal fuel)
                      (readGoalAfresh fuel') :=
                    hreaders (fun goal => goal.cost_eat.trans (by omega)) fun goal =>
                      goal.cost_eat.trans (by omega)
                  have lock := paired_lockstep whole src s A B d e n
                  exact ((readObject_inStep lock hread (lock.framing (Paired.opening ..))).keeps h).map
                    fun h => h.mono (Nat.le_succ n)

/-! ## Whole scripts -/

/-- The two parsers start as a pair. -/
theorem Paired.ofSpan (hle : s.start ≤ s.stop) (hstop : s.stop ≤ src.size) :
    Paired True src s [] [] 0 0 (Parser.ofSpan src s).remaining (Parser.ofSpan src s) (Parser.ofSpan src s) := by
  have hplaced : (Parser.ofSpan src s).Placed src s := .ofSpan hle hstop
  have hover : (Parser.ofSpan src s).Over True [] [] (Parser.ofSpan src s).nodes.toList :=
    ⟨rfl, readTrivia_count _ _ _ #[] 0 false, .inl ⟨trivial, rfl⟩⟩
  exact ⟨rfl, rfl, rfl, ⟨_, _, hover, hover⟩, rfl, rfl, Nat.le_refl _, hplaced,
    fun g hg => absurd hg List.not_mem_nil⟩

/-- What is read from an entry point with the memory is read without, unless nesting gets too deep. -/
theorem readFrom_abreast (entry : Entry) (h : Paired True src s [] [] 0 0 p.remaining p q) :
    Abreast Parser.TooDeep (Paired True src s [] [] 0 0 p.remaining) (readFrom readGoal entry p)
      (readFrom readGoalAfresh entry q) := by
  have lock := paired_lockstep True src s [] [] 0 0 p.remaining
  have hfuel : goalFuel q = goalFuel p := by
    unfold goalFuel
    rw [h.sameAhead.budget]
  have hread : ReadersInStep Parser.TooDeep (Paired True src s [] [] 0 0 p.remaining) (readGoal (goalFuel p))
      (readGoalAfresh (goalFuel p)) :=
    ⟨fun goal {_} h => (readGoal_related tooDeep_simulation _).tooDeep goal h,
      fun goal {_} h => (readGoalAfresh_related tooDeep_simulation _).tooDeep goal h,
      fun goal {_ _} h hobject => readGoal_paired _ _ goal (goal.cost_le_goalFuel p) (goal.cost_le_goalFuel p)
        h hobject⟩
  have hfirst : InStep Parser.TooDeep (Paired True src s [] [] 0 0 p.remaining)
      (Paired True src s [] [] 0 0 p.remaining) _ _ :=
    .ite (lock.isAtAny expressionStart) (readExpression_inStep hread)
      (.ite (lock.isAt .endOfTokens) (.stay fun h => h) (lock.expectedHere "expression"))
  unfold readFrom
  rw [hfuel]
  cases entry with
  | statements => exact (lock.loopUntil _ (readStatementOrFault_inStep lock hread)).keeps h
  | expression => exact (hfirst.andThen (lock.loopUntil _ lock.notExpected)).keeps h
  | attributes => exact (lock.loopUntil _ (readListedProperty_inStep lock hread .endOfTokens)).keeps h

/-- A pair of parsers with nothing behind them has the same nodes. -/
theorem Paired.finish (h : Paired True src s [] [] d e n p q) (k : ScriptKind) :
    (p.finish k).value = (q.finish k).value := by
  obtain ⟨front, trivia, hp, hq⟩ := h.nodes
  unfold Parser.finish
  rw [hp.nodes, hq.nodes, h.start_eq]

/-- A parser that finished without going too deep did not go too deep. -/
theorem Parser.not_tooDeep {k : ScriptKind} (h : (p.finish k).overflow = none) : ¬ p.TooDeep := by
  intro hdeep
  have hsome : p.overflow.isSome = true := hdeep
  have hnone : p.overflow = none := h
  rw [hnone] at hsome
  exact Bool.noConfusion hsome

/-- **The same tree is read from an entry point with the memory and without**, unless nesting gets too deep. -/
theorem readEntry_afresh (entry : Entry) (hle : s.start ≤ s.stop) (hstop : s.stop ≤ src.size)
    (hlevel : (readEntry src s entry).overflow = none)
    (hlevel' : (readEntryWith readGoalAfresh src s entry).overflow = none) :
    (readEntry src s entry).value = (readEntryWith readGoalAfresh src s entry).value := by
  rw [← readEntryWith_readGoal] at hlevel ⊢
  have hrest := (paired_lockstep True src s [] [] 0 0 (Parser.ofSpan src s).remaining).eatRest
  rcases readFrom_abreast entry (Paired.ofSpan hle hstop) with hlost | hlost | hread
  · exact absurd (hrest.left hlost) (Parser.not_tooDeep hlevel)
  · exact absurd (hrest.right hlost) (Parser.not_tooDeep hlevel')
  · rcases hrest.keeps hread with hlost | hlost | hall
    · exact absurd hlost (Parser.not_tooDeep hlevel)
    · exact absurd hlost (Parser.not_tooDeep hlevel')
    · exact hall.finish _

/-- **A stretch of script is read the same with the memory and without**, from any entry point, known or not,
unless nesting gets too deep in one of the two. -/
theorem readNamed_afresh (entry : String) (hle : s.start ≤ s.stop) (hstop : s.stop ≤ src.size)
    (hlevel : (readNamed src s entry).overflow = none)
    (hlevel' : (readNamedAfresh src s entry).overflow = none) :
    (readNamed src s entry).value = (readNamedAfresh src s entry).value := by
  cases hname : Entry.ofName? entry with
  | some known =>
      have hread : readNamed src s entry = readEntry src s known := by simp only [readNamed, hname]
      have hread' : readNamedAfresh src s entry = readEntryWith readGoalAfresh src s known := by
        simp only [readNamedAfresh, hname]
      rw [hread] at hlevel ⊢
      rw [hread'] at hlevel' ⊢
      exact readEntry_afresh known hle hstop hlevel hlevel'
  | none => simp only [readNamedAfresh, hname]

end ComponentMarkup.Script
