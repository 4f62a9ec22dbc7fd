import ComponentMarkup.Proofs.Script.BracketTokens
import ComponentMarkup.Proofs.Script.Limits

/-!
# The brackets a parser has opened

The nodes of a parser are a base and orderly nodes behind it.  While a bracket is open it ends the base, so it is still
where it was opened when its construct ends, whatever was put in, dropped or wrapped in between.

* `Parser.Ready`, `Parser.Clear` — the invariant, without and with a base;
* `Ready.opens` — an opening bracket becomes the end of the base;
* `Parser.Shut`, `Clear.closeAt` — once it is closed, or becomes a fault, it stands behind the base before it;
* `Parser.Filled`, `Filled.wrap` — and then the nodes may be wrapped into the branch of what it belongs to;
* `Lasting` — what reading an expression keeps, behind a base or not.
-/

namespace ComponentMarkup.Script

open ComponentMarkup.Text ComponentMarkup.Tree

variable {lx : Lexer} {was was' deep deep' : Prop} {base kept more front trivia : List Node} {p q : Parser}
  {k : ScriptKind} {b : Bracket} {n : Node} {mark lo : Nat} {I : Parser → Prop}

/-! ## Nodes behind a base -/

/-- Nodes behind a base that keep it in place: dropping empty faults does not reach it. -/
def Rooted (base kept : List Node) : Prop :=
  base <+: (base ++ kept).rdropWhile isEmptyFault

namespace Rooted

theorem nil : Rooted [] kept :=
  List.nil_prefix

theorem append (h : Rooted base kept) (more : List Node) : Rooted base (kept ++ more) := by
  induction more using List.reverseRecOn with
  | nil => rwa [List.append_nil]
  | append_singleton ns n ih =>
      unfold Rooted at ih ⊢
      rw [← List.append_assoc kept, ← List.append_assoc base, List.rdropWhile_concat]
      split
      · exact ih
      · rw [List.append_assoc]
        exact List.prefix_append _ _

/-- A base that ends in something else than an empty fault. -/
theorem of_firm (h : isEmptyFault n = false) (kept : List Node) : Rooted (base ++ [n]) kept := by
  have hrooted : Rooted (base ++ [n]) [] := by
    unfold Rooted
    rewrite [List.append_nil, List.rdropWhile_concat_neg _ _ _ (by rw [h]; exact Bool.false_ne_true)]
    exact List.prefix_rfl
  exact hrooted.append kept

theorem single (h : isEmptyFault n = false) (kept : List Node) : Rooted base (kept ++ [n]) := by
  unfold Rooted
  rw [← List.append_assoc, List.rdropWhile_concat_neg _ _ _ (by rw [h]; exact Bool.false_ne_true), List.append_assoc]
  exact List.prefix_append _ _

/-- A longer base may be cut down. -/
theorem shrink (h : Rooted (base ++ more) kept) : Rooted base (more ++ kept) := by
  unfold Rooted at h ⊢
  rw [← List.append_assoc]
  exact (List.prefix_append _ _).trans h

/-- What is left when empty faults are dropped. -/
theorem trim (h : Rooted base kept) :
    ∃ left, (base ++ kept).rdropWhile isEmptyFault = base ++ left ∧ left <+: kept ∧ Rooted base left := by
  obtain ⟨left, hleft⟩ := h
  refine ⟨left, hleft.symm, ?_, ?_⟩
  · have hprefix : (base ++ kept).rdropWhile isEmptyFault <+: base ++ kept := List.rdropWhile_prefix _ _
    rw [← hleft] at hprefix
    exact (List.prefix_append_right_inj base).mp hprefix
  · unfold Rooted
    rw [hleft, List.rdropWhile_idempotent, ← hleft]
    exact List.prefix_append _ _

end Rooted

/-! ## The invariant -/

/-- An arrow function that was read before: one orderly branch, and white space behind it. -/
structure ArrowGroup.InOrder (lx : Lexer) (deep : Prop) (g : ArrowGroup) : Prop where
  token : ∃ read, g.current.ReadFrom lx read g.lexer
  nodes : ∃ n trivia, g.nodes = n :: trivia ∧ trivia.length = g.current.trivia ∧ isEmptyFault n = false ∧
    ∀ m ∈ n :: trivia, Orderly deep lx.BareLoop m

theorem ArrowGroup.InOrder.mono {g : ArrowGroup} (h : g.InOrder lx deep) (himp : deep → deep') :
    g.InOrder lx deep' := by
  obtain ⟨n, trivia, hnodes, htrivia, hn, horderly⟩ := h.nodes
  exact ⟨h.token, n, trivia, hnodes, htrivia, hn, fun m hm => (horderly m hm).mono himp⟩

/-- A parser at a token that a lexer gave it, with arrow functions that are in order. -/
structure Parser.Ready (lx : Lexer) (p : Parser) : Prop where
  token : ∃ read, p.current.ReadFrom lx read p.lexer
  arrows : ∀ g ∈ p.arrows, g.InOrder lx p.TooDeep

/-- **The invariant of the parser.**  Its nodes are a base, orderly nodes behind it, and white space before the current
token.  Nesting that `was` too deep when the base was read still is. -/
structure Parser.Clear (lx : Lexer) (was : Prop) (base : List Node) (p : Parser) : Prop where
  ready : p.Ready lx
  deep : was → p.TooDeep
  nodes : ∃ kept trivia, p.Over True [] (base ++ kept) trivia ∧ Rooted base kept ∧
    ∀ n ∈ kept ++ trivia, Orderly p.TooDeep lx.BareLoop n

/-- All nodes of a parser, up to the white space before the current token. -/
theorem Parser.over_all (hnodes : p.nodes.toList = front ++ trivia) (htrivia : trivia.length = p.current.trivia) :
    p.Over True [] front trivia :=
  ⟨hnodes, htrivia, .inl ⟨True.intro, rfl⟩⟩

/-- Behind a token that was taken stands the white space before the next one. -/
theorem Parser.over_eatAs (p : Parser) (n : Node) :
    (p.eatAs n).Over True [] (p.nodes.toList ++ [n]) p.lexer.skipped := by
  refine Parser.over_all (p.eatAs_nodes n) ?_
  rw [p.eatAs_current]
  exact readTrivia_count p.lexer.place p.lexer.rest.length p.lexer #[] 0 false

namespace Parser.Ready

theorem node (h : p.Ready lx) : TokenNode p.current.node :=
  h.token.elim fun _ hfrom => hfrom.node

theorem kind_eq (h : p.Ready lx) (hat : p.isAt k = true) : p.current.node.kind = .script k :=
  h.token.elim fun _ hfrom => hfrom.kind_eq ▸ eq_of_beq hat

theorem onlyNodes (h : p.Ready lx) (hq : p.OnlyNodes q) (hdeep : p.TooDeep → q.TooDeep) : q.Ready lx :=
  ⟨hq.lexer ▸ hq.current ▸ h.token, fun g hg => (h.arrows g (hq.arrows ▸ hg)).mono hdeep⟩

theorem eatAs (h : p.Ready lx) (n : Node) : (p.eatAs n).Ready lx :=
  ⟨h.token.elim fun _ hfrom => ⟨_, hfrom.next _⟩, h.arrows⟩

/-- A token that is taken may end a new base, since it is not empty. -/
theorem opens (h : p.Ready lx) (hn : isEmptyFault n = false) :
    (p.eatAs n).Clear lx p.TooDeep (p.nodes.toList ++ [n]) := by
  refine ⟨h.eatAs n, fun hdeep => hdeep, [], p.lexer.skipped, ?_, .of_firm hn [], orderly_skipped p.lexer⟩
  rw [List.append_nil]
  exact p.over_eatAs n

/-- An opening bracket that is taken ends a new base. -/
theorem openBracket (h : p.Ready lx) : p.eat.Clear lx p.TooDeep (p.nodes.toList ++ [p.current.node]) :=
  h.opens h.node.solid

end Parser.Ready

namespace Parser.Clear

theorem weaken (h : p.Clear lx was' base) (hwas : was → was') : p.Clear lx was base :=
  ⟨h.ready, fun hw => h.deep (hwas hw), h.nodes⟩

theorem now (h : p.Clear lx was base) : p.Clear lx p.TooDeep base :=
  ⟨h.ready, fun hdeep => hdeep, h.nodes⟩

/-- Marks set from here on lie behind the base. -/
theorem le_mark (h : p.Clear lx was base) : base.length ≤ p.mark := by
  obtain ⟨kept, trivia, hover, _⟩ := h.nodes
  have hsize := hover.size_eq
  rw [List.length_append] at hsize
  unfold Parser.mark
  omega

/-- What stands behind the base. -/
theorem behind (h : p.Clear lx was base) :
    ∃ rest, p.nodes.toList = base ++ rest ∧ ∀ n ∈ rest, Orderly p.TooDeep lx.BareLoop n := by
  obtain ⟨kept, trivia, hover, _, horderly⟩ := h.nodes
  exact ⟨kept ++ trivia, by rw [hover.nodes, List.nil_append, List.append_assoc], horderly⟩

/-- A longer base may be cut down. -/
theorem shrink (h : p.Clear lx was' (base ++ more)) (hmore : ∀ n ∈ more, Orderly p.TooDeep lx.BareLoop n)
    (hwas : was → was') : p.Clear lx was base := by
  obtain ⟨kept, trivia, hover, hrooted, horderly⟩ := h.nodes
  refine ⟨h.ready, fun hw => h.deep (hwas hw), more ++ kept, trivia, ?_, hrooted.shrink, fun n hn => ?_⟩
  · rwa [← List.append_assoc]
  · rw [List.append_assoc] at hn
    exact (List.mem_append.mp hn).elim (hmore n) (horderly n)

/-- What was read since a parser was read since its base. -/
theorem resume (h : p.Clear lx was base) (hq : q.Clear lx p.TooDeep p.nodes.toList) : q.Clear lx was base := by
  obtain ⟨rest, hnodes, horderly⟩ := h.behind
  rw [hnodes] at hq
  exact hq.shrink (fun n hn => (horderly n hn).mono hq.deep) h.deep

/-- Steps that change the nodes only. -/
theorem onlyNodes (h : p.Clear lx was base) (hq : p.OnlyNodes q) (hdeep : p.TooDeep → q.TooDeep)
    (hover : q.Over True [] (base ++ kept) trivia) (hrooted : Rooted base kept)
    (horderly : ∀ n ∈ kept ++ trivia, Orderly p.TooDeep lx.BareLoop n) : q.Clear lx was base :=
  ⟨h.ready.onlyNodes hq hdeep, fun hw => hdeep (h.deep hw), kept, trivia, hover, hrooted,
    fun n hn => (horderly n hn).mono hdeep⟩

end Parser.Clear

/-! ## Taking tokens -/

/-- What is taken is read since the parser stood before it. -/
theorem Parser.Ready.adds (h : p.Ready lx) (hn : isEmptyFault n = false) (horderly : Orderly p.TooDeep lx.BareLoop n) :
    (p.eatAs n).Clear lx p.TooDeep p.nodes.toList :=
  (h.opens hn).shrink (fun _ hm => List.mem_singleton.mp hm ▸ horderly) fun hdeep => hdeep

theorem Parser.Ready.eat (h : p.Ready lx) (hat : p.isAt k = true) (hk : isBracket k = false) :
    p.eat.Clear lx p.TooDeep p.nodes.toList :=
  h.adds h.node.solid (h.node.orderly (h.kind_eq hat) hk)

theorem Parser.Ready.check (h : p.Ready lx) (holds : Bool) : (p.check holds).Ready lx :=
  ⟨h.token, h.arrows⟩

theorem Parser.Ready.eatKnown (h : p.Ready lx) (hat : p.isAt k = true) (hk : isBracket k = false) :
    (p.eatKnown k).Clear lx p.TooDeep p.nodes.toList :=
  (h.check _).eat hat hk

theorem Parser.Ready.eatWithKind (h : p.Ready lx) (hk : isBracket k = false) :
    (p.eatWithKind k).Clear lx p.TooDeep p.nodes.toList :=
  (h.check _).adds (h.node.solid_withKind k) (h.node.orderly_withKind hk)

namespace Parser.Clear

theorem eatAs (h : p.Clear lx was base) (hn : Orderly p.TooDeep lx.BareLoop n) : (p.eatAs n).Clear lx was base := by
  obtain ⟨kept, trivia, hover, hrooted, horderly⟩ := h.nodes
  have hnext := hover.eatAs n
  rw [List.append_assoc, List.append_assoc] at hnext
  refine ⟨h.ready.eatAs n, h.deep, kept ++ (trivia ++ [n]), p.lexer.skipped, hnext, hrooted.append _, fun m hm => ?_⟩
  rw [← List.append_assoc kept] at hm
  rcases List.mem_append.mp hm with hm | hm
  · rcases List.mem_append.mp hm with hm | hm
    · exact horderly m hm
    · exact List.mem_singleton.mp hm ▸ hn
  · exact orderly_skipped _ m hm

theorem eat (h : p.Clear lx was base) (hat : p.isAt k = true) (hk : isBracket k = false) : p.eat.Clear lx was base :=
  h.resume (h.ready.eat hat hk)

theorem eatKnown (h : p.Clear lx was base) (hat : p.isAt k = true) (hk : isBracket k = false) :
    (p.eatKnown k).Clear lx was base :=
  h.resume (h.ready.eatKnown hat hk)

theorem eatWithKind (h : p.Clear lx was base) (hk : isBracket k = false) : (p.eatWithKind k).Clear lx was base :=
  h.resume (h.ready.eatWithKind hk)

theorem eatIf (h : p.Clear lx was base) (hk : isBracket k = false) : (p.eatIf k).1.Clear lx was base := by
  unfold Parser.eatIf
  split
  · exact h.eat ‹_› hk
  · exact h

theorem skip (h : p.Clear lx was base) (hk : isBracket k = false) : (p.skip k).Clear lx was base :=
  h.eatIf hk

/-! ## Faults -/

theorem expected (h : p.Clear lx was base) (thing : String) : (p.expected thing).Clear lx was base := by
  obtain ⟨kept, trivia, hover, hrooted, horderly⟩ := h.nodes
  have hnext := hover.expected thing
  have hdeep : p.TooDeep → (p.expected thing).TooDeep := fun hdeep => hdeep.expected thing
  unfold expectedAfter at hnext
  split at hnext
  · exact h.onlyNodes (p.expected_onlyNodes thing) hdeep hnext hrooted horderly
  · rw [List.append_assoc] at hnext
    refine h.onlyNodes (p.expected_onlyNodes thing) hdeep hnext (hrooted.append _) fun n hn => ?_
    rw [List.append_assoc, List.mem_append, List.mem_append, List.mem_singleton] at hn
    rcases hn with hn | rfl | hn
    · exact horderly n (List.mem_append_left _ hn)
    · exact .fault fun heq => absurd heq (message_ne (by decide))
    · exact horderly n (List.mem_append_right _ hn)

theorem trimFaults (h : p.Clear lx was base) : p.trimFaults.Clear lx was base := by
  obtain ⟨kept, trivia, hover, hrooted, horderly⟩ := h.nodes
  obtain ⟨left, hleft, hshorter, hrest⟩ := hrooted.trim
  have hnext := hover.trimFaults
  rw [hleft] at hnext
  refine h.onlyNodes p.trimFaults_onlyNodes (fun hdeep => hdeep) hnext hrest fun n hn => horderly n ?_
  rcases List.mem_append.mp hn with hn | hn
  · exact List.mem_append_left _ (hshorter.mem hn)
  · exact List.mem_append_right _ hn

theorem unexpected (h : p.Clear lx was base) : p.unexpected.Clear lx was base :=
  h.trimFaults.eatAs (h.ready.node.orderly_faultOf (message_ne (by decide)))

theorem eatReserved (h : p.Clear lx was base) : p.eatReserved.Clear lx was base := by
  refine h.trimFaults.eatAs (.hint (h.ready.node.orderly_faultOf ?_) _)
  rw [String.append_assoc, String.append_assoc]
  exact message_ne (by decide)

theorem require (h : p.Clear lx was base) (hk : isBracket k = false) : (p.require k).Clear lx was base := by
  unfold Parser.require Parser.expect
  split
  · exact h.eat ‹_› hk
  · split
    · exact h.eatReserved
    · exact h.expected _

end Parser.Clear

theorem Parser.expect_found (hat : p.isAt k = true) : p.expect k = (p.eat, true) := by
  rw [Parser.expect, if_pos hat]

theorem Parser.expect_missing (hat : p.isAt k = false) (hk : k ≠ .ident) :
    p.expect k = (p.expected k.title, false) := by
  have hident : (k == ScriptKind.ident && p.isAtAny reserved) = false := by
    rw [beq_eq_false_iff_ne.mpr hk, Bool.false_and]
  rw [Parser.expect, hat, hident]
  rfl

/-! ## Closing brackets -/

/-- A parser with nodes behind a base that may be in a branch of a kind, and orderly nodes behind them. -/
def Parser.Filled (lx : Lexer) (k : ScriptKind) (was : Prop) (base : List Node) (p : Parser) : Prop :=
  ∃ inside, p.Clear lx was (base ++ inside) ∧ Contents p.TooDeep lx.BareLoop k inside

/-- A parser with nodes behind a base among which as many brackets are closed as are opened. -/
def Parser.Shut (lx : Lexer) (k : ScriptKind) (was : Prop) (base : List Node) (p : Parser) : Prop :=
  ∃ inside, p.Clear lx was (base ++ inside) ∧ BracketRun p.TooDeep lx.BareLoop k inside

theorem Parser.Shut.filled (h : p.Shut lx k was base) : p.Filled lx k was base := by
  obtain ⟨inside, hclear, hrun⟩ := h
  exact ⟨inside, hclear, hrun.toContents⟩

/-- An opening bracket that is not closed becomes a fault that says so. -/
theorem faultOf_bracket {o : Node} (ho : o.isScript b.opening = true) (htext : o.fullText = b.openingText) :
    ∃ s, Parser.faultOf o unclosedMessage = .fault unclosedMessage [] b.openingText s ∧ s.size = 1 := by
  have hfault : ¬ o.isFault = true := by
    intro hfault
    unfold Node.isFault at hfault
    unfold Node.isScript at ho
    rw [eq_of_beq ho] at hfault
    exact Bool.noConfusion hfault
  have hlength : b.openingText.length = 1 := by cases b <;> rfl
  unfold Parser.faultOf
  rw [if_neg hfault, htext]
  refine ⟨_, rfl, ?_⟩
  show o.start + b.openingText.length - o.start = 1
  omega

/-- **An opening bracket at the end of the base is closed or becomes a fault.** -/
theorem Parser.Clear.closeAt {o : Node} (h : p.Clear lx was (base ++ [o])) (ho : o.isScript b.opening = true)
    (htoken : TokenNode o) (hk : bracketOf? k = some b) : (p.closeAt base.length b.closing).Shut lx k was base := by
  obtain ⟨kept, trivia, hover, hrooted, horderly⟩ := h.nodes
  cases hat : p.isAt b.closing with
  | true =>
      have hclose : p.closeAt base.length b.closing = p.eat := by rw [Parser.closeAt, if_pos hat]
      have hnodes : p.nodes.toList ++ [p.current.node] =
          base ++ (o :: (kept ++ trivia) ++ [p.current.node]) := by
        rw [hover.nodes]
        simp only [List.nil_append, List.append_assoc, List.cons_append]
      have hnext := h.ready.openBracket
      rw [hnodes] at hnext
      rw [hclose]
      refine ⟨_, hnext.weaken h.deep, .closed hk ho ?_ (fun n hn => ?_) horderly⟩
      · exact beq_iff_eq.mpr (h.ready.kind_eq hat)
      · rcases List.mem_cons.mp hn with rfl | hn
        · exact htoken.quiet
        · exact List.mem_singleton.mp hn ▸ h.ready.node.quiet
  | false =>
      have hnot : ¬ p.isAt b.closing = true := by rw [hat]; exact Bool.false_ne_true
      obtain ⟨s, hfault, hsize⟩ := faultOf_bracket ho (htoken.bracket b ho)
      have hfront : unclosedAt base.length (base ++ [o] ++ kept) =
          base ++ [Node.fault unclosedMessage [] b.openingText s] ++ kept := by
        have hfault' : Parser.faultOf o "unclosed delimiter" = _ := hfault
        simp [unclosedAt, List.modify_eq_set_getElem?, hfault']
      have hin : base.length < (base ++ [o] ++ kept).length := by
        simp only [List.length_append, List.length_singleton]
        omega
      have hnext := hover.closeAt base.length hnot
      rw [hfront, if_pos hin, List.length_nil, Nat.zero_add] at hnext
      have hdeep : p.TooDeep → (p.closeAt base.length b.closing).TooDeep := fun hdeep => hdeep.closeAt _ _
      refine ⟨_, ⟨h.ready.onlyNodes (Parser.closeAt_onlyNodes hnot _) hdeep, fun hw => hdeep (h.deep hw), kept, trivia,
        hnext, .of_firm ?_ kept, fun n hn => (horderly n hn).mono hdeep⟩, .unclosedBracket hk⟩
      simp [isEmptyFault, Node.span, hsize]

/-- A bracket that was taken is closed or becomes a fault, whatever was read in between. -/
theorem Parser.Ready.closeAt (h : p.Ready lx) (hat : p.isAt b.opening = true) (hk : bracketOf? k = some b)
    (hq : q.Clear lx p.TooDeep (p.nodes.toList ++ [p.current.node])) :
    (q.closeAt p.mark b.closing).Shut lx k p.TooDeep p.nodes.toList :=
  hq.closeAt (beq_iff_eq.mpr (h.kind_eq hat)) h.node hk

namespace Parser.Filled

theorem ready (h : p.Filled lx k was base) : p.Ready lx := by
  obtain ⟨inside, hclear, _⟩ := h
  exact hclear.ready

/-- Nothing has to be there yet. -/
theorem of_clear (h : p.Clear lx was base) : p.Filled lx k was base :=
  ⟨[], by rwa [List.append_nil], .of_quiet fun _ hn => absurd hn List.not_mem_nil⟩

/-- Any token may follow what is in order, since it says nothing of brackets. -/
theorem of_eat (h : p.Clear lx was base) : p.eat.Filled lx k was base := by
  obtain ⟨rest, hnodes, horderly⟩ := h.behind
  have hnext := h.ready.openBracket
  rw [hnodes, List.append_assoc] at hnext
  refine ⟨rest ++ [p.current.node], hnext.weaken h.deep, .of_quiet fun n hn => ?_⟩
  rcases List.mem_append.mp hn with hn | hn
  · exact ((horderly n hn).mono hnext.deep).toQuiet
  · exact List.mem_singleton.mp hn ▸ h.ready.node.quiet

/-- What keeps every base keeps what stands behind it. -/
theorem keep (h : p.Filled lx k was base) (hq : ∀ {was base}, p.Clear lx was base → q.Clear lx was base) :
    q.Filled lx k was base := by
  obtain ⟨inside, hclear, hcontents⟩ := h
  exact ⟨inside, hq hclear, hcontents.mono (hq hclear.now).deep⟩

/-- More brackets may follow, if they are closed or faults. -/
theorem shut (h : p.Filled lx k was base) (hq : q.Shut lx k p.TooDeep p.nodes.toList) : q.Filled lx k was base := by
  obtain ⟨inside, hclear, hcontents⟩ := h
  obtain ⟨more, hnext, hrun⟩ := hq
  obtain ⟨rest, hnodes, horderly⟩ := hclear.behind
  have hrest : ∀ n ∈ rest, Orderly q.TooDeep lx.BareLoop n := fun n hn => (horderly n hn).mono hnext.deep
  rw [hnodes, List.append_assoc, List.append_assoc] at hnext
  refine ⟨inside ++ (rest ++ more), hnext.weaken hclear.deep, ?_⟩
  exact (hcontents.mono hnext.deep).append (.append (.of_orderly hrest) hrun)

/-- A longer base may be cut down. -/
theorem shrink (h : p.Filled lx k was' (base ++ more)) (hmore : ∀ n ∈ more, Orderly p.TooDeep lx.BareLoop n)
    (hwas : was → was') : p.Filled lx k was base := by
  obtain ⟨inside, hclear, hcontents⟩ := h
  rw [List.append_assoc] at hclear
  exact ⟨more ++ inside, hclear.weaken hwas, hcontents.prepend fun n hn => (hmore n hn).toQuiet⟩

/-- What a branch over everything behind the base becomes: one orderly node. -/
theorem wrap_nodes (h : p.Filled lx k was base) (hk : isBracket k = false) :
    ∃ n trivia, (p.wrap base.length k).nodes.toList = base ++ n :: trivia ∧
      trivia.length = p.current.trivia ∧ isEmptyFault n = false ∧
      ∀ m ∈ n :: trivia, Orderly p.TooDeep lx.BareLoop m := by
  obtain ⟨inside, hclear, hcontents⟩ := h
  obtain ⟨kept, trivia, hover, _, horderly⟩ := hclear.nodes
  have hkept : ∀ n ∈ kept, Orderly p.TooDeep lx.BareLoop n := fun n hn => horderly n (List.mem_append_left _ hn)
  have hall := (hcontents.append (.of_orderly hkept)).branchAt hk (stopOf p.start base)
  have hnext := (hover.wrap base.length k).nodes
  rw [List.length_nil, Nat.zero_add, wrapIn, List.append_assoc base, List.take_left, List.drop_left] at hnext
  refine ⟨.branchAt (.script k) (stopOf p.start base) (inside ++ kept), trivia, hnext.trans ?_, hover.trivia_eq, ?_,
    fun m hm => ?_⟩
  · simp only [List.nil_append, List.append_assoc, List.singleton_append]
  · rw [isEmptyFault, Node.isFault, kind_branchAt]
    rfl
  · rcases List.mem_cons.mp hm with rfl | hm
    · exact hall
    · exact horderly m (List.mem_append_right _ hm)

/-- **What stands behind the base may be wrapped into the branch it belongs to.** -/
theorem wrap (h : p.Filled lx k was base) (hk : isBracket k = false) : (p.wrap base.length k).Clear lx was base := by
  obtain ⟨n, trivia, hnodes, htrivia, hn, horderly⟩ := h.wrap_nodes hk
  obtain ⟨inside, hclear, _⟩ := h
  refine ⟨hclear.ready.onlyNodes (p.wrap_onlyNodes _ _) fun hdeep => hdeep, hclear.deep, [n], trivia,
    Parser.over_all ?_ htrivia, .single hn [], horderly⟩
  rw [hnodes, List.append_assoc, List.singleton_append]

end Parser.Filled

/-- Orderly nodes may be wrapped from any mark behind the base. -/
theorem Parser.Clear.wrap (h : p.Clear lx was base) (hmark : base.length ≤ mark) (hk : isBracket k = false) :
    (p.wrap mark k).Clear lx was base := by
  obtain ⟨kept, trivia, hover, hrooted, horderly⟩ := h.nodes
  have hnext := hover.wrap mark k
  obtain ⟨i, rfl⟩ := Nat.exists_eq_add_of_le hmark
  rw [List.length_nil, Nat.zero_add, wrapIn, List.take_length_add_append, List.drop_length_add_append,
    List.append_assoc] at hnext
  have hkept : ∀ n ∈ kept, Orderly p.TooDeep lx.BareLoop n := fun n hn => horderly n (List.mem_append_left _ hn)
  have hinside : Contents p.TooDeep lx.BareLoop k (kept.drop i) :=
    .of_quiet fun n hn => (hkept n (List.mem_of_mem_drop hn)).toQuiet
  refine h.onlyNodes (p.wrap_onlyNodes _ _) (fun hdeep => hdeep) hnext (.single ?_ _) fun n hn => ?_
  · rw [isEmptyFault, Node.isFault, kind_branchAt]
    rfl
  · rcases List.mem_append.mp hn with hn | hn
    · rcases List.mem_append.mp hn with hn | hn
      · exact hkept n (List.mem_of_mem_take hn)
      · exact List.mem_singleton.mp hn ▸ hinside.branchAt hk _
    · exact horderly n (List.mem_append_right _ hn)

/-! ## Going back -/

/-- A parser goes back to where it was before something was read. -/
theorem Parser.Ready.rewind (h : p.Ready lx) (hq : q.Clear lx p.TooDeep (p.nodes.toList ++ more)) :
    (q.rewind p).Ready lx ∧ (q.rewind p).nodes.toList = p.nodes.toList := by
  obtain ⟨rest, hnodes, _⟩ := hq.behind
  refine ⟨⟨h.token, hq.ready.arrows⟩, ?_⟩
  show (q.nodes.extract 0 p.nodes.size).toList = p.nodes.toList
  rw [Array.toList_extract, List.extract_eq_take_drop, List.drop_zero, Nat.sub_zero, hnodes, List.append_assoc,
    ← Array.length_toList, List.take_left]

/-- An arrow function that was read before may be put in place again. -/
theorem Parser.Ready.replay (h : p.Ready lx) {g : ArrowGroup} (hg : g ∈ p.arrows) :
    (p.replay g).Clear lx p.TooDeep p.nodes.toList := by
  have horder := h.arrows g hg
  obtain ⟨n, trivia, hnodes, htrivia, hn, horderly⟩ := horder.nodes
  refine ⟨⟨horder.token, h.arrows⟩, fun hdeep => hdeep, [n], trivia, Parser.over_all ?_ htrivia, .single hn [],
    horderly⟩
  show (p.nodes ++ g.nodes.toArray).toList = _
  rw [Array.toList_append, hnodes, List.append_assoc, List.singleton_append]

/-- An arrow function that was just read may be remembered. -/
theorem Parser.Filled.remember (h : p.Filled lx k was base) (hk : isBracket k = false) (start : Nat) :
    ((p.wrap base.length k).remember start base.length).Clear lx was base := by
  have hwrap := h.wrap hk
  obtain ⟨n, trivia, hnodes, htrivia, hn, horderly⟩ := h.wrap_nodes hk
  refine ⟨⟨hwrap.ready.token, fun g hg => ?_⟩, hwrap.deep, ?_⟩
  · rcases List.mem_cons.mp hg with rfl | hg
    · refine ⟨hwrap.ready.token, n, trivia, ?_, htrivia, hn, horderly⟩
      show ((p.wrap base.length k).nodes.extract base.length (p.wrap base.length k).nodes.size).toList = n :: trivia
      rw [Array.toList_extract, List.extract_eq_take_drop, ← Array.length_toList, hnodes, List.drop_left,
        List.length_append, Nat.add_sub_cancel_left, List.take_length]
    · exact hwrap.ready.arrows g hg
  · obtain ⟨kept, trivia, hover, hrooted, horderly⟩ := hwrap.nodes
    exact ⟨kept, trivia, ⟨hover.nodes, hover.trivia_eq, hover.footed⟩, hrooted, horderly⟩

/-! ## Repeating -/

/-- What a step keeps is kept while it is repeated. -/
theorem Parser.repeatStep_keeps {step : Parser → Parser × Bool} (hstep : ∀ {q}, I q → I (step q).1) (fuel : Nat)
    (h : I p) : I (Parser.repeatStep step fuel p) := by
  induction fuel generalizing p with
  | zero => exact h
  | succ fuel ih =>
      have hnext := hstep h
      unfold Parser.repeatStep
      split
      · rename_i q hq
        rw [hq] at hnext
        exact ih hnext
      · rename_i q hq
        rwa [hq] at hnext

theorem Parser.loop_keeps {step : Parser → Parser × Bool} (hstep : ∀ {q}, I q → I (step q).1) (h : I p) :
    I (p.loop step) :=
  Parser.repeatStep_keeps hstep _ h

theorem Parser.loopUntil_keeps {step : Parser → Parser} (hstep : ∀ {q}, I q → I (step q)) (stops : List ScriptKind)
    (h : I p) : I (p.loopUntil stops step) := by
  refine Parser.loop_keeps (fun {q} hq => ?_) h
  show I (if q.isAtAny stops then (q, false) else (step q, true)).1
  split
  · exact hq
  · exact hstep hq

/-! ## What lasts -/

/-- Wrapping leaves nodes before the mark in place. -/
theorem Parser.le_mark_wrap {m : Nat} (hm : m ≤ p.mark) (hmark : m ≤ mark) (k : ScriptKind) :
    m ≤ (p.wrap mark k).mark := by
  unfold Parser.mark at hm ⊢
  simp only [Parser.wrap, Parser.check, Parser.markBeforeTrivia, Array.size_append, Array.size_push, Array.size_extract]
  omega

/-- **What reading an expression keeps**: what holds of parsers and goes on to hold when orderly nodes are added, when
what was added is wrapped from a mark that is not too low, and when something is expected. -/
structure Lasting (lx : Lexer) (lo : Nat) (I : Parser → Prop) : Prop where
  ready : ∀ {p : Parser}, I p → p.Ready lx
  le_mark : ∀ {p : Parser}, I p → lo ≤ p.mark
  adds : ∀ {p q : Parser}, I p → q.Clear lx p.TooDeep p.nodes.toList → I q
  wrap : ∀ {p q : Parser} {mark : Nat} {k : ScriptKind}, I p → lo ≤ mark → mark ≤ p.mark →
    q.Filled lx k p.TooDeep p.nodes.toList → isBracket k = false → I (q.wrap mark k)
  expected : ∀ {p : Parser} (thing : String), I p → I (p.expected thing)
  nested : ∀ {p q : Parser}, I p → q.nodes = p.nodes → q.current = p.current → q.lexer = p.lexer →
    q.arrows = p.arrows → (p.TooDeep → q.TooDeep) → I q

namespace Lasting

/-- A base, and orderly nodes behind it. -/
theorem clear (lx : Lexer) (was : Prop) (base : List Node) : Lasting lx base.length (Parser.Clear lx was base) where
  ready h := h.ready
  le_mark h := h.le_mark
  adds h hq := h.resume hq
  wrap {p q mark k} h hlo hmark hq hk := by
    obtain ⟨rest, hnodes, horderly⟩ := h.behind
    have hsize : mark - base.length ≤ rest.length := by
      have hlength := congrArg List.length hnodes
      rw [Array.length_toList, List.length_append] at hlength
      unfold Parser.mark at hmark
      omega
    have hsplit : p.nodes.toList = base ++ rest.take (mark - base.length) ++ rest.drop (mark - base.length) := by
      rw [hnodes, List.append_assoc, List.take_append_drop]
    have hlength : (base ++ rest.take (mark - base.length)).length = mark := by
      rw [List.length_append, List.length_take]
      omega
    obtain ⟨inside, hclear, _⟩ := id hq
    have hlater : ∀ n ∈ rest, Orderly q.TooDeep lx.BareLoop n := fun n hn => (horderly n hn).mono hclear.deep
    rw [hsplit] at hq
    have hwrap := (hq.shrink (fun n hn => hlater n (List.mem_of_mem_drop hn)) fun hdeep => hdeep).wrap hk
    rw [hlength] at hwrap
    exact hwrap.shrink (fun n hn => hlater n (List.mem_of_mem_take hn)) h.deep
  expected thing h := h.expected thing
  nested {p q} h hnodes hcurrent hlexer harrows hdeep := by
    obtain ⟨kept, trivia, hover, hrooted, horderly⟩ := h.nodes
    refine ⟨⟨hlexer ▸ hcurrent ▸ h.ready.token, fun g hg => (h.ready.arrows g (harrows ▸ hg)).mono hdeep⟩,
      fun hw => hdeep (h.deep hw), kept, trivia, ⟨hnodes ▸ hover.nodes, hcurrent ▸ hover.trivia_eq, hover.footed⟩,
      hrooted, fun n hn => (horderly n hn).mono hdeep⟩

variable (last : Lasting lx lo I)

include last

/-- Nodes that were there stay there. -/
theorem since (hlo : lo ≤ mark) : Lasting lx mark fun q => I q ∧ mark ≤ q.mark where
  ready h := last.ready h.1
  le_mark h := h.2
  adds h hq := ⟨last.adds h.1 hq, by
    have hle := hq.le_mark
    rw [Array.length_toList] at hle
    exact h.2.trans hle⟩
  wrap {p q i k} h hi hmark hq hk := by
    obtain ⟨inside, hclear, _⟩ := id hq
    have hle := hclear.le_mark
    rw [List.length_append, Array.length_toList] at hle
    exact ⟨last.wrap h.1 (hlo.trans hi) hmark hq hk,
      Parser.le_mark_wrap (h.2.trans ((Nat.le_add_right _ _).trans hle)) hi k⟩
  expected {p} thing h := by
    refine ⟨last.expected thing h.1, h.2.trans ?_⟩
    unfold Parser.expected
    dsimp only [Parser.check]
    split
    · exact Nat.le_refl _
    · simp only [Parser.mark, Parser.markBeforeTrivia, Array.size_append, Array.size_push, Array.size_extract]
      omega
  nested h hnodes hcurrent hlexer harrows hdeep := ⟨last.nested h.1 hnodes hcurrent hlexer harrows hdeep, by
    unfold Parser.mark
    rw [hnodes]
    exact h.2⟩

/-- Where nesting got too deep, the rest may be taken as it is. -/
theorem eatAll (fuel : Nat) (h : I p) (hdeep : p.TooDeep) : I (p.eatAll fuel) := by
  induction fuel generalizing p with
  | zero => exact h
  | succ fuel ih =>
      unfold Parser.eatAll
      split
      · exact h
      · have htoken := (last.ready h).node
        exact ih (last.adds h ((last.ready h).adds htoken.solid ⟨htoken.quiet, fun hno => absurd hdeep hno⟩)) hdeep

theorem enter (h : I p) : I p.enter.1 := by
  by_cases hd : maxDepth ≤ p.depth
  · unfold Parser.enter
    rw [if_pos hd]
    have hdeep : Parser.TooDeep { p with overflow := Limited.first p.overflow (some p.current.node.start) } := by
      unfold Parser.TooDeep Limited.first
      cases p.overflow <;> rfl
    exact last.eatAll _ (last.nested h rfl rfl rfl rfl fun _ => hdeep) hdeep
  · rw [Nat.not_le] at hd
    rw [Parser.enter_eq hd]
    exact last.nested h rfl rfl rfl rfl fun hdeep => hdeep

theorem leave (h : I p) : I p.leave :=
  last.nested h rfl rfl rfl rfl fun hdeep => hdeep

end Lasting

/-! ## Behind a fault -/

/-- A parser that stands behind a fault.  Nothing more is expected there, so all its nodes stay where they are. -/
structure Parser.Still (lx : Lexer) (front trivia : List Node) (p : Parser) : Prop where
  ready : p.Ready lx
  stands : p.Over True [] front trivia
  fault : front.getLast?.any Node.isFault = true

/-- A parser that still stands there or has added to all the nodes. -/
def Parser.Past (lx : Lexer) (was : Prop) (front trivia : List Node) (p : Parser) : Prop :=
  (was → p.TooDeep) ∧ p.Still lx front trivia ∨ p.Clear lx was (front ++ trivia)

theorem Parser.Still.nodes (h : p.Still lx front trivia) : p.nodes.toList = front ++ trivia :=
  h.stands.nodes

theorem Parser.Still.expected (h : p.Still lx front trivia) (thing : String) :
    (p.expected thing).Still lx front trivia := by
  have hover := h.stands.expected thing
  rw [expectedAfter, if_pos h.fault] at hover
  exact ⟨h.ready.onlyNodes (p.expected_onlyNodes thing) fun hdeep => hdeep.expected thing, hover, h.fault⟩

/-- All nodes of a parser behind a fault last. -/
theorem Lasting.past (was : Prop) (front trivia : List Node) :
    Lasting lx (front ++ trivia).length (Parser.Past lx was front trivia) where
  ready h := h.elim (fun h => h.2.ready) fun h => h.ready
  le_mark h := by
    rcases h with ⟨_, h⟩ | h
    · rw [← h.nodes]
      exact Nat.le_refl _
    · exact h.le_mark
  adds h hq := by
    rcases h with ⟨hdeep, h⟩ | h
    · rw [h.nodes] at hq
      exact .inr (hq.weaken hdeep)
    · exact .inr (h.resume hq)
  wrap {p q mark k} h hlo hmark hq hk := by
    rcases h with ⟨hdeep, h⟩ | h
    · rw [h.nodes] at hq
      obtain rfl : mark = (front ++ trivia).length := by
        rw [← h.nodes] at hlo ⊢
        exact Nat.le_antisymm hmark hlo
      exact .inr ((hq.wrap hk).weaken hdeep)
    · exact .inr ((Lasting.clear lx was _).wrap h hlo hmark hq hk)
  expected thing h := by
    rcases h with ⟨hdeep, h⟩ | h
    · exact .inl ⟨fun hw => (hdeep hw).expected thing, h.expected thing⟩
    · exact .inr (h.expected thing)
  nested {p q} h hnodes hcurrent hlexer harrows hq := by
    rcases h with ⟨hdeep, h⟩ | h
    · exact .inl ⟨fun hw => hq (hdeep hw),
        ⟨hlexer ▸ hcurrent ▸ h.ready.token, fun g hg => (h.ready.arrows g (harrows ▸ hg)).mono hq⟩,
        ⟨hnodes ▸ h.stands.nodes, hcurrent ▸ h.stands.trivia_eq, h.stands.footed⟩, h.fault⟩
    · exact .inr ((Lasting.clear lx was _).nested h hnodes hcurrent hlexer harrows hq)

namespace Parser.Past

/-- The nodes that were there are still there. -/
theorem nodes (h : p.Past lx was front trivia) : ∃ rest, p.nodes.toList = front ++ trivia ++ rest := by
  rcases h with ⟨_, h⟩ | h
  · exact ⟨[], by rw [h.nodes, List.append_nil]⟩
  · obtain ⟨rest, hnodes, _⟩ := h.behind
    exact ⟨rest, hnodes⟩

/-- What was orderly behind a base still is. -/
theorem clear (h : p.Past lx was (base ++ kept) trivia) (hrooted : Rooted base kept)
    (horderly : ∀ n ∈ kept ++ trivia, Orderly was lx.BareLoop n) : p.Clear lx was base := by
  rcases h with ⟨hdeep, h⟩ | h
  · exact ⟨h.ready, hdeep, kept, trivia, h.stands, hrooted, fun n hn => (horderly n hn).mono hdeep⟩
  · rw [List.append_assoc] at h
    exact h.shrink (fun n hn => (horderly n hn).mono h.deep) fun hw => hw

end Parser.Past

/-- White space and comments may be said to be unclosed where a loop is bare. -/
theorem Orderly.faultOf (h : Orderly deep lx.BareLoop n)
    (hn : n.isFault = true ∨ isIdle n.fullText = true ∧ lx.BareLoop) :
    Orderly deep lx.BareLoop (Parser.faultOf n unclosedMessage) := by
  unfold Parser.faultOf
  split
  · exact h
  · exact .fault fun _ => hn.resolve_left ‹_›

/-- Where white space, a comment or a fault stands for the bracket, nothing but orderly nodes comes about. -/
theorem Parser.Clear.closeIdle (h : p.Clear lx was (base ++ [n])) (hn : isEmptyFault n = false)
    (hmark : base.length < mark) (hat : ¬ p.isAt k = true)
    (hidle : ∀ m, p.nodes[mark]? = some m → m.isFault = true ∨ isIdle m.fullText = true ∧ lx.BareLoop) :
    (p.closeAt mark k).Clear lx was (base ++ [n]) := by
  cases hm : p.nodes[mark]? with
  | none =>
      have hclose : p.closeAt mark k = p := by rw [Parser.closeAt, if_neg hat, hm]
      rwa [hclose]
  | some m =>
      obtain ⟨kept, trivia, hover, _, horderly⟩ := h.nodes
      have hlength : (base ++ [n]).length ≤ mark := by
        rw [List.length_append, List.length_singleton]
        exact hmark
      have hnodes : p.nodes.toList = base ++ [n] ++ (kept ++ trivia) := by
        rw [hover.nodes, List.nil_append, List.append_assoc]
      have hfault : Orderly p.TooDeep lx.BareLoop (Parser.faultOf m unclosedMessage) := by
        refine (horderly m ?_).faultOf (hidle m hm)
        rw [← Array.getElem?_toList, hnodes, List.getElem?_append_right hlength] at hm
        exact List.mem_of_getElem? hm
      have hclose : (p.closeAt mark k).nodes.toList = base ++ [n] ++ (kept ++ trivia).set (mark - (base ++ [n]).length)
          (Parser.faultOf m unclosedMessage) := by
        rw [Parser.closeAt, if_neg hat, hm]
        exact Array.toList_setIfInBounds.trans (hnodes ▸ List.set_append_right _ _ hlength)
      generalize hrest : (kept ++ trivia).set (mark - (base ++ [n]).length) (Parser.faultOf m unclosedMessage) = rest
        at hclose
      have hcount : rest.length = kept.length + trivia.length := by
        rw [← hrest, List.length_set, List.length_append]
      have hdeep : p.TooDeep → (p.closeAt mark k).TooDeep := fun hdeep => hdeep.closeAt mark k
      have honly := Parser.closeAt_onlyNodes hat mark
      refine ⟨h.ready.onlyNodes honly hdeep, fun hw => hdeep (h.deep hw), rest.take kept.length, rest.drop kept.length,
        Parser.over_all ?_ ?_, .of_firm hn _, fun x hx => ?_⟩
      · rw [hclose, List.append_assoc _ (rest.take _), List.take_append_drop]
      · rw [List.length_drop, honly.current, ← hover.trivia_eq]
        omega
      · rw [List.take_append_drop, ← hrest] at hx
        rcases List.mem_or_eq_of_mem_set hx with hx | rfl
        · exact (horderly x hx).mono hdeep
        · exact hfault.mono hdeep

end ComponentMarkup.Script
