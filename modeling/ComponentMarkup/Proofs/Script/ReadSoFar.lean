import ComponentMarkup.Proofs.Script.Afresh
import ComponentMarkup.Proofs.Script.Precedence

/-!
# What a parser has read so far

The nodes that a parser has put in front of what lies behind it are in order: all operations among them have the
operands they may have.  They may also be known to be of some shape, such as one operand.

Once there is a fault, nothing more is claimed.  Faults stay: those without text are only taken out where another
one is put.

* `Shaped` — nodes of a shape, in order, unless there is a fault;
* `Held` — a parser that has put such nodes in front of what lies behind it;
* `Held.eatAs`, `Held.enclose`, `Held.expected`, … — what the steps of the parser make of it;
* `held_lockstep` — they keep it, if nothing is asked of the shape.
-/

namespace ComponentMarkup.Script

open ComponentMarkup.Text ComponentMarkup.Tree

variable {whole clean : Prop} {src : Source} {s : Span} {A front trivia ns : List Node} {d n : Nat} {p q : Parser}
  {k : ScriptKind} {shape shape' : List Node → Prop} {Lost : Parser → Prop} {P P' : Parser → Prop}
  {f : Parser → Parser} {read : Reader}

/-! ## What a parser has read -/

/-- Nodes with a fault among them. -/
def Flawed (ns : List Node) : Prop :=
  ∃ m ∈ ns, m.faulty = true

/-- Nodes in front of a token without a fault: those of some shape, with operations as they should be, and the
white space before the token. -/
structure Tidy (shape : List Node → Prop) (front trivia : List Node) : Prop where
  nodes : ∀ m ∈ front, m.isFault = false ∧ m.Throughout WellBound
  spaces : ∀ m ∈ trivia, m.kind.isTrivia = true ∧ m.Throughout WellBound
  shape : shape (significant front)

/-- Nodes in front of a token that are of some shape, unless there is a fault. -/
def Shaped (shape : List Node → Prop) (front trivia : List Node) : Prop :=
  Flawed (front ++ trivia) ∨ Tidy shape front trivia

/-- One node and nothing else. -/
def Alone (P : Node → Prop) (ns : List Node) : Prop :=
  ∃ e, ns = [e] ∧ P e

/-- Nodes of one shape and then nodes of another. -/
def Then (shape shape' : List Node → Prop) (ns : List Node) : Prop :=
  ∃ ms ms', ns = ms ++ ms' ∧ shape ms ∧ shape' ms'

/-- An operand that may stand anywhere. -/
def Atomic (e : Node) : Prop :=
  isOneOf (.unary :: .binary :: looseKinds) e = false

/-- An arrow function that is remembered as one operand. -/
structure ArrowGroup.Fine (src : Source) (s : Span) (g : ArrowGroup) : Prop where
  nodes : ∃ front trivia, g.nodes = front ++ trivia ∧ trivia.length = g.current.trivia ∧ Footed front ∧
    Shaped (Alone Atomic) front trivia
  placed : ∀ {p : Parser}, p.Placed src s → p.current.node.start = g.start →
    (p.replay g).Placed src s ∧ (p.replay g).remaining ≤ p.remaining

/-- A parser at a token, some levels deep and with at most so many tokens left.  What it remembers is fine. -/
structure Parser.Standing (src : Source) (s : Span) (d n : Nat) (p : Parser) : Prop where
  placed : p.Placed src s
  depth : p.depth = d
  remaining : p.remaining ≤ n
  arrows : ∀ g ∈ p.arrows, g.Fine src s

/-- **A parser that has put nodes of some shape in front of what lies behind it**, or a fault. -/
structure Held (shape : List Node → Prop) (whole : Prop) (src : Source) (s : Span) (A : List Node) (d n : Nat)
    (p : Parser) : Prop where
  standing : p.Standing src s d n
  nodes : ∃ front trivia, p.Over whole A front trivia ∧ Shaped shape front trivia

/-- A parser that has put a fault in front of what lies behind it. -/
abbrev HeldFlawed := Held fun _ => False

/-- A parser that has put any nodes in front of what lies behind it. -/
abbrev HeldAny := Held fun _ => True

namespace Flawed

theorem left {ms : List Node} (h : Flawed ns) : Flawed (ns ++ ms) := by
  obtain ⟨m, hm, hfaulty⟩ := h
  exact ⟨m, List.mem_append_left _ hm, hfaulty⟩

theorem right {ms : List Node} (h : Flawed ms) : Flawed (ns ++ ms) := by
  obtain ⟨m, hm, hfaulty⟩ := h
  exact ⟨m, List.mem_append_right _ hm, hfaulty⟩

theorem mono {ms : List Node} (h : Flawed ns) (hsub : ns ⊆ ms) : Flawed ms := by
  obtain ⟨m, hm, hfaulty⟩ := h
  exact ⟨m, hsub hm, hfaulty⟩

/-- A branch over a fault is faulty. -/
theorem branchAt (h : Flawed ns) (kind : Kind) (place : Nat) : (Node.branchAt kind place ns).faulty = true := by
  obtain ⟨m, hm, hfaulty⟩ := h
  cases ns with
  | nil => exact absurd hm List.not_mem_nil
  | cons n ns => exact List.any_eq_true.mpr ⟨m, hm, hfaulty⟩

/-- A fault stays among the nodes if some are wrapped. -/
theorem wrapIn (h : Flawed (front ++ trivia)) (start : Nat) (k : ScriptKind) (i : Nat) :
    Flawed (wrapIn start k i front ++ trivia) := by
  obtain ⟨m, hm, hfaulty⟩ := h
  rw [List.mem_append, ← List.take_append_drop i front, List.mem_append] at hm
  rcases hm with (hm | hm) | hm
  · exact ⟨m, List.mem_append_left _ (List.mem_append_left _ hm), hfaulty⟩
  · have hbranch := Flawed.branchAt ⟨m, hm, hfaulty⟩ (.script k) (stopOf start (front.take i))
    exact ⟨_, List.mem_append_left _ (List.mem_append_right _ List.mem_cons_self), hbranch⟩
  · exact ⟨m, List.mem_append_right _ hm, hfaulty⟩

/-- A fault stays one where a bracket becomes one. -/
theorem unclosedAt (h : Flawed ns) (i : Nat) : Flawed (unclosedAt i ns) := by
  obtain ⟨m, hm, hfaulty⟩ := h
  induction ns generalizing i with
  | nil => exact absurd hm List.not_mem_nil
  | cons n ns ih =>
      cases i with
      | zero =>
          rcases List.mem_cons.mp hm with rfl | hm
          · refine ⟨_, List.mem_cons_self, ?_⟩
            show (Parser.faultOf m _).faulty = true
            unfold Parser.faultOf
            split
            · exact hfaulty
            · rfl
          · exact ⟨m, List.mem_cons_of_mem _ hm, hfaulty⟩
      | succ i =>
          rcases List.mem_cons.mp hm with rfl | hm
          · exact ⟨m, List.mem_cons_self, hfaulty⟩
          · exact (ih i hm).mono (List.subset_cons_self _ _)

/-- A bracket that becomes a fault is one. -/
theorem of_unclosedAt {i : Nat} (hi : i < ns.length) (hns : ∀ m ∈ ns, m.isFault = false) :
    Flawed (ComponentMarkup.Script.unclosedAt i ns) := by
  refine ⟨Parser.faultOf ns[i] "unclosed delimiter", ?_, ?_⟩
  · refine List.mem_of_getElem? (i := i) ?_
    unfold ComponentMarkup.Script.unclosedAt
    rw [List.getElem?_modify_eq, List.getElem?_eq_getElem hi]
    rfl
  · unfold Parser.faultOf
    rw [hns _ (List.getElem_mem hi)]
    rfl

end Flawed

theorem isFault_of_isTrivia {m : Node} (h : m.kind.isTrivia = true) : m.isFault = false := by
  unfold Node.isFault
  revert h
  cases m.kind with
  | fault => exact fun h => Bool.noConfusion h
  | _ => exact fun _ => rfl

namespace Shaped

theorem mono (h : Shaped shape front trivia) (himp : ∀ {ns}, shape ns → shape' ns) :
    Shaped shape' front trivia :=
  h.imp_right fun h => ⟨h.nodes, h.spaces, himp h.shape⟩

/-- Nodes are put in front of nodes. -/
theorem append {more rest : List Node} (h : Shaped shape front trivia) (h' : Shaped shape' more rest) :
    Shaped (Then shape shape') (front ++ trivia ++ more) rest := by
  rcases h with hflawed | htidy
  · exact .inl (List.append_assoc _ more rest ▸ hflawed.left)
  · rcases h' with hflawed | htidy'
    · exact .inl (List.append_assoc _ more rest ▸ hflawed.right)
    · refine .inr ⟨?_, htidy'.spaces, ?_⟩
      · intro m hm
        rw [List.mem_append, List.mem_append] at hm
        rcases hm with (hm | hm) | hm
        · exact htidy.nodes m hm
        · obtain ⟨htrivia, hbound⟩ := htidy.spaces m hm
          exact ⟨isFault_of_isTrivia htrivia, hbound⟩
        · exact htidy'.nodes m hm
      · refine ⟨significant front, significant more, ?_, htidy.shape, htidy'.shape⟩
        rw [significant_append, significant_append, significant_trivia fun m hm => (htidy.spaces m hm).1,
          List.append_nil]

/-- A token and what is read before the next one. -/
theorem token {m : Node} (h : IsLexed m) (lx : Lexer) :
    Shaped (fun ns => ns = significant [m]) [m] lx.skipped := by
  cases hfaulty : m.faulty with
  | true => exact .inl ⟨m, List.mem_cons_self, hfaulty⟩
  | false =>
      refine .inr ⟨fun c hc => ?_, wellBound_skipped lx, rfl⟩
      obtain rfl := List.mem_singleton.mp hc
      exact ⟨h.isFault.trans hfaulty, h.wellBound⟩

/-- The nodes from some place on are wrapped. -/
theorem wrapIn {start i : Nat} (h : Shaped (fun _ => clean) front trivia) (hk : operationKinds.contains k = false) :
    Shaped (fun _ => clean) (wrapIn start k i front) trivia := by
  rcases h with hflawed | htidy
  · exact .inl (hflawed.wrapIn start k i)
  · refine .inr ⟨fun m hm => ?_, htidy.spaces, htidy.shape⟩
    rcases List.mem_append.mp hm with hm | hm
    · exact htidy.nodes m (List.mem_of_mem_take hm)
    · obtain rfl := List.mem_singleton.mp hm
      refine ⟨?_, .branchAt (.branchAt (bound_other hk)) fun c hc => (htidy.nodes c (List.mem_of_mem_drop hc)).2⟩
      unfold Node.isFault
      rw [kind_branchAt]
      rfl

/-- A branch over some nodes with a fault has one. -/
theorem wrapFlawed {start i : Nat} (h : Shaped (fun _ => False) front trivia) :
    Shaped (fun _ => False) (ComponentMarkup.Script.wrapIn start k i front) trivia :=
  .inl ((h.resolve_right fun htidy => htidy.shape).wrapIn start k i)

/-- All nodes are wrapped. -/
theorem enclose {start : Nat} (h : Shaped shape front trivia) (hk : (Kind.script k).isTrivia = false)
    (hbound : ∀ {ns}, shape ns → Bound k ns) :
    Shaped (Alone fun e => e.kind = .script k ∧ shape (partsOf e)) (ComponentMarkup.Script.wrapIn start k 0 front)
      trivia := by
  have hall : ComponentMarkup.Script.wrapIn start k 0 front = [.branchAt (.script k) (stopOf start []) front] := rfl
  have hkind := kind_branchAt k (stopOf start []) front
  rw [hall]
  rcases h with hflawed | htidy
  · exact .inl (hflawed.wrapIn start k 0)
  · refine .inr ⟨fun m hm => ?_, htidy.spaces, _, significant_single (by rw [hkind, hk]), hkind, ?_⟩
    · obtain rfl := List.mem_singleton.mp hm
      refine ⟨?_, .branchAt (.branchAt (hbound htidy.shape)) fun c hc => (htidy.nodes c hc).2⟩
      unfold Node.isFault
      rw [hkind]
      rfl
    · rw [partsOf_branchAt]
      exact htidy.shape

/-- Where something is expected, there is a fault. -/
theorem expectedAfter {thing : String} {place : Nat} (h : Shaped shape front trivia) :
    Flawed (expectedAfter thing place front ++ trivia) := by
  unfold ComponentMarkup.Script.expectedAfter
  split
  · -- there is a fault already
    rename_i hlast
    rcases h with hflawed | htidy
    · exact hflawed
    · cases hm : front.getLast? with
      | none =>
          rw [hm] at hlast
          exact Bool.noConfusion hlast
      | some m =>
          rw [hm, Option.any_some, (htidy.nodes m (List.mem_of_getLast? hm)).1] at hlast
          exact Bool.noConfusion hlast
  · exact ⟨_, List.mem_append_left _ (List.mem_append_right _ List.mem_cons_self), rfl⟩

/-- An opening bracket that is not closed is a fault. -/
theorem unclosedAt (h : Shaped (fun _ => clean) front trivia) (i : Nat) :
    Shaped (fun _ => clean) (unclosedAt i front)
      (if i < front.length then trivia else ComponentMarkup.Script.unclosedAt (i - front.length) trivia) := by
  rcases h with hflawed | htidy
  · refine .inl ?_
    rw [← Parser.Over.unclosedAt_append]
    exact hflawed.unclosedAt i
  · by_cases hi : i < (front ++ trivia).length
    · refine .inl ?_
      rw [← Parser.Over.unclosedAt_append]
      refine Flawed.of_unclosedAt hi fun m hm => ?_
      rcases List.mem_append.mp hm with hm | hm
      · exact (htidy.nodes m hm).1
      · exact isFault_of_isTrivia (htidy.spaces m hm).1
    · rw [List.length_append, Nat.not_lt] at hi
      have hfront : ComponentMarkup.Script.unclosedAt i front = front :=
        List.modify_eq_self (by omega)
      have htrivia : ComponentMarkup.Script.unclosedAt (i - front.length) trivia = trivia :=
        List.modify_eq_self (by omega)
      rw [hfront, htrivia, ite_self]
      exact .inr htidy

end Shaped

/-! ## Steps -/

namespace Parser.Standing

theorem onlyNodes (h : p.Standing src s d n) (hsame : p.OnlyNodes q) : q.Standing src s d n := by
  refine ⟨h.placed.congr hsame.start_eq hsame.current hsame.lexer, hsame.depth.trans h.depth, ?_, ?_⟩
  · unfold Parser.remaining Parser.atEnd Parser.isAt
    rw [hsame.lexer, hsame.current]
    exact h.remaining
  · rw [hsame.arrows]
    exact h.arrows

theorem mono {n' : Nat} (h : p.Standing src s d n) (hn : n ≤ n') : p.Standing src s d n' :=
  ⟨h.placed, h.depth, h.remaining.trans hn, h.arrows⟩

theorem eatAs (h : p.Standing src s d n) (node : Node) : (p.eatAs node).Standing src s d (n - 1) :=
  ⟨h.placed.eatAs node, h.depth, (h.placed.remaining_eatAs node).trans (Nat.sub_le_sub_right h.remaining 1),
    h.arrows⟩

theorem isLexed (h : p.Standing src s d n) : IsLexed p.current.node := by
  obtain ⟨lx, _, hnext⟩ := h.placed.token
  have hlexed := lx.next_isLexed
  rwa [hnext] at hlexed

/-- A token that is taken lies in front of everything before it. -/
theorem eat (h : p.Standing src s d n) (hend : p.atEnd = false) :
    Held (fun ns => ns = significant [p.current.node]) False src s p.nodes.toList d (n - 1) p.eat := by
  refine ⟨h.eatAs _, _, _, p.over_eat False ?_, Shaped.token h.isLexed p.lexer⟩
  have hkind : p.current.kind ≠ .script .endOfTokens := by
    intro hkind
    unfold Parser.atEnd Parser.isAt at hend
    rw [hkind] at hend
    exact absurd hend (by simp)
  have htext := h.placed.stands.has_text hkind
  refine ⟨?_, fun _ => ?_⟩
  · rw [h.placed.stands.fits.length_fullText]
    omega
  · unfold Span.size
    exact Nat.sub_ne_zero_of_lt htext

end Parser.Standing

namespace Held

theorem mono {n' : Nat} (h : Held shape whole src s A d n p) (himp : ∀ {ns}, shape ns → shape' ns)
    (hn : n ≤ n') : Held shape' whole src s A d n' p := by
  obtain ⟨front, trivia, hover, hshaped⟩ := h.nodes
  exact ⟨h.standing.mono hn, front, trivia, hover, hshaped.mono himp⟩

theorem imp (h : Held shape whole src s A d n p) (himp : ∀ {ns}, shape ns → shape' ns) :
    Held shape' whole src s A d n p :=
  h.mono himp (Nat.le_refl n)

theorem any (h : Held shape whole src s A d n p) : HeldAny whole src s A d n p :=
  h.imp fun _ => trivial

/-- What was put in front of all nodes of a parser was put in front of what lies behind it. -/
theorem resume {whole' : Prop} {d' n' : Nat} (h : Held shape whole src s A d n p)
    (h' : Held shape' whole' src s p.nodes.toList d' n' q) :
    Held (Then shape shape') whole src s A d' n' q := by
  obtain ⟨front, trivia, hover, hshaped⟩ := h.nodes
  obtain ⟨more, rest, hover', hshaped'⟩ := h'.nodes
  exact ⟨h'.standing, _, rest, hover.resume hover', hshaped.append hshaped'⟩

theorem resumeFlawed {whole' : Prop} {d' n' : Nat} (h : Held shape whole src s A d n p)
    (h' : HeldFlawed whole' src s p.nodes.toList d' n' q) : HeldFlawed whole src s A d' n' q :=
  (h.resume h').imp fun ⟨_, _, _, _, hno⟩ => hno

/-- A token is taken as some node. -/
theorem eatAs {node : Node} (h : Held shape whole src s A d n p) (hnode : IsLexed node) :
    Held (Then shape fun ns => ns = significant [node]) whole src s A d (n - 1) (p.eatAs node) := by
  obtain ⟨front, trivia, hover, hshaped⟩ := h.nodes
  exact ⟨h.standing.eatAs node, _, _, hover.eatAs node, hshaped.append (.token hnode p.lexer)⟩

theorem eatAny {node : Node} (h : Held (fun _ => clean) whole src s A d n p) (hnode : IsLexed node) :
    Held (fun _ => clean) whole src s A d n (p.eatAs node) :=
  (h.eatAs hnode).mono (fun ⟨_, _, _, hclean, _⟩ => hclean) (Nat.sub_le n 1)

/-- All nodes in front are wrapped. -/
theorem enclose (h : Held shape whole src s A d n p) (hk : (Kind.script k).isTrivia = false)
    (hbound : ∀ {ns}, shape ns → Bound k ns) :
    Held (Alone fun e => e.kind = .script k ∧ shape (partsOf e)) whole src s A d n (p.wrap A.length k) := by
  obtain ⟨front, trivia, hover, hshaped⟩ := h.nodes
  exact ⟨h.standing.onlyNodes (p.wrap_onlyNodes _ k), _, trivia, hover.wrap 0 k, hshaped.enclose hk hbound⟩

theorem wrapFlawed {i : Nat} (h : HeldFlawed whole src s A d n p) (hi : A.length ≤ i) :
    HeldFlawed whole src s A d n (p.wrap i k) := by
  obtain ⟨front, trivia, hover, hshaped⟩ := h.nodes
  obtain ⟨i, rfl⟩ := Nat.exists_eq_add_of_le hi
  exact ⟨h.standing.onlyNodes (p.wrap_onlyNodes _ k), _, trivia, hover.wrap i k, hshaped.wrapFlawed⟩

theorem wrap {i : Nat} (h : Held (fun _ => clean) whole src s A d n p) (hi : A.length ≤ i)
    (hk : operationKinds.contains k = false) : Held (fun _ => clean) whole src s A d n (p.wrap i k) := by
  obtain ⟨front, trivia, hover, hshaped⟩ := h.nodes
  obtain ⟨i, rfl⟩ := Nat.exists_eq_add_of_le hi
  exact ⟨h.standing.onlyNodes (p.wrap_onlyNodes _ k), _, trivia, hover.wrap i k, hshaped.wrapIn hk⟩

/-- Empty faults are taken out where a token becomes a fault. -/
theorem eatFault {node : Node} (h : Held (fun _ => clean) whole src s A d n p) (hnode : node.faulty = true) :
    Held (fun _ => clean) whole src s A d (n - 1) (p.trimFaults.eatAs node) := by
  obtain ⟨front, trivia, hover, _⟩ := h.nodes
  refine ⟨(h.standing.onlyNodes p.trimFaults_onlyNodes).eatAs node, _, _, hover.trimFaults.eatAs node, .inl ?_⟩
  exact ⟨node, List.mem_append_left _ (List.mem_append_right _ List.mem_cons_self), hnode⟩

theorem expected (h : Held shape whole src s A d n p) (thing : String) :
    HeldFlawed whole src s A d n (p.expected thing) := by
  obtain ⟨front, trivia, hover, hshaped⟩ := h.nodes
  exact ⟨h.standing.onlyNodes (p.expected_onlyNodes thing), _, _, hover.expected thing,
    .inl hshaped.expectedAfter⟩

theorem closeAt {i : Nat} (h : Held (fun _ => clean) whole src s A d n p) (hi : A.length ≤ i) (k : ScriptKind) :
    Held (fun _ => clean) whole src s A d n (p.closeAt i k) := by
  by_cases hk : p.isAt k
  · unfold Parser.closeAt
    rw [if_pos hk]
    exact h.eatAny h.standing.isLexed
  · obtain ⟨front, trivia, hover, hshaped⟩ := h.nodes
    obtain ⟨i, rfl⟩ := Nat.exists_eq_add_of_le hi
    exact ⟨h.standing.onlyNodes (Parser.closeAt_onlyNodes hk _), _, _, hover.closeAt i hk, hshaped.unclosedAt i⟩

theorem check (h : Held shape whole src s A d n p) (holds : Bool) :
    Held shape whole src s A d n (p.check holds) := by
  obtain ⟨front, trivia, hover, hshaped⟩ := h.nodes
  exact ⟨h.standing.onlyNodes (p.check_onlyNodes holds), front, trivia,
    ⟨hover.nodes, hover.trivia_eq, hover.footed⟩, hshaped⟩

theorem le_mark (h : Held shape whole src s A d n p) : A.length ≤ p.mark := by
  obtain ⟨front, trivia, hover, _⟩ := h.nodes
  have hsize := hover.size_eq
  unfold Parser.mark
  omega

end Held

/-- One parser, twice, of which something holds. -/
def Same (P : Parser → Prop) (p q : Parser) : Prop :=
  p = q ∧ P p

/-- One mark, twice, not before some place. -/
def SameMark (least m n : Nat) : Prop :=
  m = n ∧ least ≤ m

theorem InStep.same (hlost : ∀ {p}, Lost p → Lost (f p)) (h : ∀ {p}, P p → Lost (f p) ∨ P' (f p)) :
    InStep Lost (Same P) (Same P') f f := by
  refine ⟨hlost, hlost, ?_⟩
  rintro p _ ⟨rfl, hp⟩
  exact (h hp).imp_right fun hp => .inr ⟨rfl, hp⟩

theorem InStep.out (h : InStep Lost (Same P) (Same P') f f) (hp : P p) : Lost (f p) ∨ P' (f p) := by
  rcases h.keeps ⟨rfl, hp⟩ with hlost | hlost | ⟨_, hp⟩
  · exact .inl hlost
  · exact .inl hlost
  · exact .inr hp

/-- **The steps of the parser keep what it has read in order**, if nothing is asked of the shape. -/
theorem held_lockstep (clean whole : Prop) (src : Source) (s : Span) (A : List Node) (d n : Nat) :
    Lockstep Parser.TooDeep (Same (Held (fun _ => clean) whole src s A d n)) (SameMark A.length) where
  beyond := tooDeep_beyond
  ahead := by
    rintro p _ ⟨rfl, _⟩
    exact ⟨rfl, rfl, rfl, rfl, rfl, rfl⟩
  mark := by
    rintro p _ ⟨rfl, h⟩
    exact ⟨rfl, h.le_mark⟩
  isFunction := by
    rintro p _ m _ ⟨rfl, _⟩ ⟨rfl, _⟩
    rfl
  check := by
    rintro p _ holds ⟨rfl, h⟩
    exact ⟨rfl, h.check holds⟩
  eat := by
    rintro p _ ⟨rfl, h⟩
    exact ⟨rfl, h.eatAny h.standing.isLexed⟩
  rename := by
    rintro p _ _ ⟨rfl, h⟩
    exact ⟨rfl, h.eatAny (h.standing.isLexed.withKind rfl)⟩
  wrap := by
    rintro p _ m _ k hk ⟨rfl, hle⟩ ⟨rfl, h⟩
    exact ⟨rfl, h.wrap hle (Bool.not_eq_true' _ ▸ (Bool.and_eq_true_iff.mp hk).1)⟩
  expected := by
    rintro p _ thing ⟨rfl, h⟩
    exact ⟨rfl, (h.expected thing).imp False.elim⟩
  unexpected := by
    rintro p _ ⟨rfl, h⟩
    exact ⟨rfl, (h.eatFault h.standing.isLexed.faultOf).mono (fun h => h) (Nat.sub_le n 1)⟩
  eatReserved := by
    rintro p _ ⟨rfl, h⟩
    exact ⟨rfl, (h.eatFault (faulty_hint h.standing.isLexed.faultOf _)).mono (fun h => h) (Nat.sub_le n 1)⟩
  closeAt := by
    rintro p _ m _ k ⟨rfl, hle⟩ ⟨rfl, h⟩
    exact ⟨rfl, h.closeAt hle k⟩

/-- Behind a fault any branches may be made. -/
theorem flawed_wrapsAll (whole : Prop) (src : Source) (s : Span) (A : List Node) (d n : Nat) :
    WrapsAll (Same (HeldFlawed whole src s A d n)) (SameMark A.length) := by
  rintro p _ m _ k _ ⟨rfl, hle⟩ ⟨rfl, h⟩
  exact ⟨rfl, h.wrapFlawed hle⟩

end ComponentMarkup.Script
