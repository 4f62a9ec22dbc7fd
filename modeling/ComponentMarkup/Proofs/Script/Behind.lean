import ComponentMarkup.Proofs.Script.ParserTiling
import Mathlib.Data.List.DropRight

/-!
# What lies behind a parser

A part of the nodes of a parser, those behind it, does not matter to what it does next, provided that a firm node
stands in front of them: one with text, which is never taken out again.  What a step makes of the nodes in front
is then the same whatever lies behind, and so what two parsers read from the same token is the same.

* `Firm` — a node that stays in place, though it may be wrapped or become a fault;
* `Parser.Over` — the nodes of a parser: some behind, a part in front, and the white space before the token;
* `Parser.OnlyNodes` — a step that changes the nodes only;
* `Parser.Over.wrap`, `Parser.Over.expected`, `Parser.Over.trimFaults`, `Parser.Over.closeAt`,
  `Parser.Over.eatAs` — what the steps of the parser make of the part in front.
-/

namespace ComponentMarkup.Script

open ComponentMarkup.Text ComponentMarkup.Tree

variable {whole : Prop} {behind front trivia : List Node} {p : Parser}

/-! ## Nodes that stay -/

/-- A node with text.  If it is a fault, it is not taken for an empty one. -/
structure Firm (n : Node) : Prop where
  text : 0 < n.fullText.length
  fault : n.isFault = true → n.span.size ≠ 0

/-- Nodes of which the first is firm. -/
def Footed (ns : List Node) : Prop :=
  ∃ n rest, ns = n :: rest ∧ Firm n

theorem Firm.leaf {k : ScriptKind} {text : String} {s : Span} (h : 0 < text.length) :
    Firm (.leaf (.script k) text s) := by
  refine ⟨?_, fun hfault => absurd hfault (by simp [Node.isFault, Node.kind])⟩
  simpa [Node.fullText, Node.leaves, Node.text, String.join] using h

/-- The text of a branch over something firm is not empty. -/
theorem Firm.branch {k : ScriptKind} {n : Node} {rest : List Node} (h : Firm n) :
    Firm (.branch (.script k) (n :: rest)) := by
  refine ⟨?_, fun hfault => absurd hfault (by simp [Node.isFault, Node.kind, Node.branch, Node.spanning])⟩
  have htext : (Node.branch (.script k) (n :: rest)).fullText =
      n.fullText ++ String.join ((Node.leavesOf rest).map Node.text) := by
    simp [Node.fullText, Node.branch, Node.spanning, Node.leaves, Node.leavesOf, String.join_append]
  rw [htext, String.length_append]
  have hpos := h.text
  omega

theorem Firm.faultOf {n : Node} (h : Firm n) (message : String) : Firm (Parser.faultOf n message) := by
  unfold Parser.faultOf
  split
  · exact h
  · refine ⟨?_, fun _ => ?_⟩
    · simpa [Node.fullText, Node.leaves, Node.text, String.join] using h.text
    · have hpos := h.text
      simp only [Node.span, Span.size]
      omega

namespace Footed

theorem append (h : Footed front) (more : List Node) : Footed (front ++ more) := by
  obtain ⟨n, rest, rfl, hn⟩ := h
  exact ⟨n, rest ++ more, rfl, hn⟩

theorem ne_nil (h : Footed front) : front ≠ [] := by
  obtain ⟨n, rest, rfl, _⟩ := h
  exact List.cons_ne_nil n rest

end Footed

/-! ## Nodes in front -/

/-- The nodes of a parser: some behind, a part in front of them, and white space and comments before the current
token.  The part in front starts with a firm node unless it is known to be the whole. -/
structure Parser.Over (whole : Prop) (behind front trivia : List Node) (p : Parser) : Prop where
  nodes : p.nodes.toList = behind ++ front ++ trivia
  trivia_eq : trivia.length = p.current.trivia
  footed : (whole ∧ behind = []) ∨ Footed front

/-- Where the node that follows some nodes starts, if they start at a place. -/
def stopOf (start : Nat) (ns : List Node) : Nat :=
  (ns.getLast?.map Node.stop).getD start

/-- The part in front, wrapped from a mark on. -/
def wrapIn (start : Nat) (k : ScriptKind) (i : Nat) (front : List Node) : List Node :=
  front.take i ++ [.branchAt (.script k) (stopOf start (front.take i)) (front.drop i)]

/-- The part in front with something expected after it, unless a fault ends it already. -/
def expectedAfter (thing : String) (place : Nat) (front : List Node) : List Node :=
  if front.getLast?.any Node.isFault then front
  else front ++ [.fault ("expected " ++ thing) [] "" ⟨place, place⟩]

/-- Whether a node is a fault without text. -/
def isEmptyFault (n : Node) : Bool :=
  n.isFault && n.span.size == 0

/-- Nodes of which the one at a mark, an opening bracket, is turned into a fault. -/
def unclosedAt (i : Nat) (ns : List Node) : List Node :=
  ns.modify i (Parser.faultOf · "unclosed delimiter")

namespace Parser.Over

theorem size_eq (h : p.Over whole behind front trivia) :
    p.nodes.size = behind.length + front.length + trivia.length := by
  rw [← Array.length_toList, h.nodes, List.length_append, List.length_append]

theorem markBeforeTrivia_eq (h : p.Over whole behind front trivia) :
    p.markBeforeTrivia = behind.length + front.length := by
  have hsize := h.size_eq
  have htrivia := h.trivia_eq
  unfold Parser.markBeforeTrivia
  omega

theorem getElem? (h : p.Over whole behind front trivia) (i : Nat) :
    p.nodes[behind.length + i]? = (front ++ trivia)[i]? := by
  rw [← Array.getElem?_toList, h.nodes, List.append_assoc, List.getElem?_append_right (Nat.le_add_right _ _),
    Nat.add_sub_cancel_left]

/-- The node before the white space in front of the token. -/
theorem getElem?_last (h : p.Over whole behind front trivia) (hne : behind.length + front.length ≠ 0) :
    p.nodes[behind.length + front.length - 1]? = front.getLast? := by
  have hfront : front ≠ [] := by
    rintro rfl
    rcases h.footed with ⟨_, rfl⟩ | hfooted
    · exact hne rfl
    · exact hfooted.ne_nil rfl
  have hpos := List.length_pos_iff.mpr hfront
  rw [Nat.add_sub_assoc hpos, h.getElem?, List.getElem?_append_left (by omega), List.getLast?_eq_getElem?]

/-- What was added to all nodes of a parser was added to the part in front. -/
theorem resume {whole' : Prop} {p' : Parser} {more rest : List Node} (h : p.Over whole behind front trivia)
    (h' : p'.Over whole' p.nodes.toList more rest) :
    p'.Over whole behind (front ++ trivia ++ more) rest := by
  refine ⟨?_, h'.trivia_eq, h.footed.imp_right fun h => (h.append _).append _⟩
  rw [h'.nodes, h.nodes]
  simp only [List.append_assoc]

/-- Going back to where nothing was in front yet leaves what is behind. -/
theorem rewind_nodes {later : Parser} (h : later.Over whole p.nodes.toList front trivia) :
    (later.rewind p).nodes.toList = p.nodes.toList := by
  show (later.nodes.extract 0 p.nodes.size).toList = p.nodes.toList
  rw [Array.toList_extract, List.extract_eq_take_drop, List.drop_zero, Nat.sub_zero, h.nodes, ← Array.length_toList,
    List.append_assoc, List.take_left]

/-! ### Wrapping -/

/-- Where a branch would start is told by the part in front, unless it starts with this part. -/
theorem placeAt_eq (h : p.Over whole behind front trivia) {i : Nat} (hi : i ≤ front.length)
    (hpos : behind = [] ∨ 0 < i) : p.placeAt (behind.length + i) = stopOf p.start (front.take i) := by
  unfold Parser.placeAt stopOf
  cases i with
  | zero =>
      obtain rfl := hpos.resolve_right (Nat.lt_irrefl 0)
      rfl
  | succ i =>
      rw [if_neg (by omega), Nat.add_succ_sub_one, h.getElem?, List.getElem?_append_left (by omega),
        List.getLast?_eq_getElem?, List.length_take, Nat.min_eq_left hi, Nat.add_sub_cancel,
        List.getElem?_take_of_lt (Nat.lt_succ_self i)]

/-- The branch that wrapping makes is told by the part in front. -/
theorem branchAt_eq (h : p.Over whole behind front trivia) {i : Nat} (hi : i ≤ front.length) (k : ScriptKind) :
    Node.branchAt (.script k) (p.placeAt (behind.length + i)) (front.drop i) =
      Node.branchAt (.script k) (stopOf p.start (front.take i)) (front.drop i) := by
  by_cases hpos : behind = [] ∨ 0 < i
  · rw [h.placeAt_eq hi hpos]
  · -- the branch is not empty, so where it would start if it were does not matter
    rw [not_or, Nat.not_lt] at hpos
    obtain ⟨n, rest, rfl, _⟩ := h.footed.resolve_left fun h => hpos.1 h.2
    obtain rfl := Nat.le_zero.mp hpos.2
    rfl

theorem wrap (h : p.Over whole behind front trivia) (i : Nat) (k : ScriptKind) :
    (p.wrap (behind.length + i) k).Over whole behind (wrapIn p.start k i front) trivia := by
  have hsplit : behind ++ front = behind ++ front.take i ++ front.drop i := by
    rw [List.append_assoc, List.take_append_drop]
  have hmin : min (behind.length + i) (behind ++ front.take i ++ front.drop i).length =
      (behind ++ front.take i).length := by
    rw [← hsplit, List.length_append, List.length_append, List.length_take]
    omega
  have hnodes := h.nodes
  rw [hsplit] at hnodes
  refine ⟨?_, h.trivia_eq, h.footed.imp_right ?_⟩
  · have hlength : (behind ++ front.take i).length = behind.length + min i front.length := by
      rw [List.length_append, List.length_take]
    have htake : front.take (min i front.length) = front.take i := by
      rw [← List.take_take, List.take_length]
    have hdrop : front.drop (min i front.length) = front.drop i := by
      rcases Nat.le_total i front.length with hle | hle
      · rw [Nat.min_eq_left hle]
      · rw [Nat.min_eq_right hle, List.drop_length, List.drop_eq_nil_of_le hle]
    have hbranch := h.branchAt_eq (Nat.min_le_right i front.length) k
    rw [htake, hdrop] at hbranch
    rw [Parser.Sound.wrap_nodes hnodes h.trivia_eq hmin, hlength, hbranch]
    simp only [wrapIn, List.append_assoc]
  · rintro ⟨n, rest, rfl, hn⟩
    cases i with
    | zero => exact ⟨_, [], rfl, hn.branch⟩
    | succ i => exact ⟨n, _, rfl, hn⟩

/-! ### Faults -/

theorem expected (h : p.Over whole behind front trivia) (thing : String) :
    (p.expected thing).Over whole behind (expectedAfter thing p.current.previousStop front) trivia := by
  have hmark := h.markBeforeTrivia_eq
  have hthere : (p.markBeforeTrivia ≠ 0 ∧ (p.nodes[p.markBeforeTrivia - 1]?).any Node.isFault) ↔
      front.getLast?.any Node.isFault = true := by
    rw [hmark]
    constructor
    · rintro ⟨hne, hfault⟩
      rwa [h.getElem?_last hne] at hfault
    · intro hfault
      have hne : behind.length + front.length ≠ 0 := by
        intro hzero
        obtain rfl := List.length_eq_zero_iff.mp (Nat.eq_zero_of_add_eq_zero hzero).2
        exact absurd hfault Bool.false_ne_true
      exact ⟨hne, by rwa [h.getElem?_last hne]⟩
  unfold Parser.expected expectedAfter
  dsimp only [Parser.check]
  by_cases hfault : front.getLast?.any Node.isFault = true
  · rw [if_pos (hthere.mpr hfault), if_pos hfault]
    exact ⟨h.nodes, h.trivia_eq, h.footed⟩
  · rw [if_neg (mt hthere.mp hfault), if_neg hfault]
    refine ⟨?_, h.trivia_eq, h.footed.imp_right fun h => h.append _⟩
    simp only [Array.toList_append, Array.toList_push, Array.toList_extract, List.extract_eq_take_drop,
      h.nodes, hmark, h.size_eq, Nat.sub_zero, List.drop_zero, Nat.add_sub_cancel_left]
    rw [← List.length_append, List.take_left, List.drop_left, List.take_length, List.append_assoc behind]

/-- Empty faults are dropped up to the last node that is none. -/
theorem emptyFaultsStart_eq {nodes : Array Node} {rest : List Node} (hnodes : nodes.toList = behind ++ front ++ rest)
    (hfooted : (whole ∧ behind = []) ∨ Footed front) :
    Parser.emptyFaultsStart nodes (behind.length + front.length) =
      behind.length + (front.rdropWhile isEmptyFault).length := by
  induction front using List.reverseRecOn generalizing rest with
  | nil =>
      obtain ⟨_, rfl⟩ := hfooted.resolve_right fun h => h.ne_nil rfl
      rfl
  | append_singleton ns n ih =>
      have hget : nodes[behind.length + ns.length]? = some n := by
        rw [← Array.getElem?_toList, hnodes, ← List.append_assoc, ← List.length_append, List.append_assoc _ _ rest,
          List.getElem?_append_right (Nat.le_refl _), Nat.sub_self]
        rfl
      rw [List.length_append, List.length_singleton, ← Nat.add_assoc, Parser.emptyFaultsStart, hget,
        Option.any_some, List.rdropWhile_concat]
      change (if isEmptyFault n = true then _ else _) = _
      by_cases hempty : isEmptyFault n = true
      · rw [if_pos hempty, if_pos hempty]
        have hrest : nodes.toList = behind ++ ns ++ (n :: rest) := by simp [hnodes]
        refine ih hrest (hfooted.imp_right ?_)
        rintro ⟨m, tail, heq, hm⟩
        cases ns with
        | nil =>
            -- the firm node itself is no empty fault
            obtain rfl := (List.cons.inj heq).1
            have hparts := Bool.and_eq_true_iff.mp hempty
            exact absurd (beq_iff_eq.mp hparts.2) (hm.fault hparts.1)
        | cons o ns =>
            obtain rfl := (List.cons.inj heq).1
            exact ⟨_, _, rfl, hm⟩
      · rw [if_neg hempty, if_neg hempty, List.length_append, List.length_singleton, Nat.add_assoc]

theorem trimFaults (h : p.Over whole behind front trivia) :
    p.trimFaults.Over whole behind (front.rdropWhile isEmptyFault) trivia := by
  obtain ⟨dropped, hdropped⟩ := List.rdropWhile_prefix (p := isEmptyFault) (l := front)
  have hstart := emptyFaultsStart_eq h.nodes h.footed
  refine ⟨?_, h.trivia_eq, h.footed.imp_right ?_⟩
  · have hfirst : (behind ++ front ++ trivia).take (behind ++ front.rdropWhile isEmptyFault).length =
        behind ++ front.rdropWhile isEmptyFault := by
      obtain ⟨kept, hkept⟩ : ∃ kept, kept = front.rdropWhile isEmptyFault := ⟨_, rfl⟩
      rw [← hkept] at hdropped ⊢
      rw [← hdropped, ← List.append_assoc behind, List.append_assoc _ dropped, List.take_left]
    unfold Parser.trimFaults
    simp only [Array.toList_append, Array.toList_extract, List.extract_eq_take_drop, h.nodes,
      h.markBeforeTrivia_eq, hstart, h.size_eq, Nat.sub_zero, List.drop_zero, Nat.add_sub_cancel_left]
    rw [← List.length_append, ← List.length_append, hfirst, List.drop_left, List.take_length]
  · rintro ⟨n, rest, rfl, hn⟩
    cases hkept : (n :: rest).rdropWhile isEmptyFault with
    | nil =>
        have hall := List.rdropWhile_eq_nil_iff.mp hkept n List.mem_cons_self
        have hparts := Bool.and_eq_true_iff.mp hall
        exact absurd (beq_iff_eq.mp hparts.2) (hn.fault hparts.1)
    | cons m kept =>
        rw [hkept] at hdropped
        obtain rfl := (List.cons.inj hdropped).1
        exact ⟨_, kept, rfl, hn⟩

/-! ### Closing brackets -/

/-- An opening bracket that is not closed is one of the nodes in front, if it is still there. -/
theorem unclosedAt_append (i : Nat) (ns ms : List Node) :
    unclosedAt i (ns ++ ms) =
      unclosedAt i ns ++ if i < ns.length then ms else unclosedAt (i - ns.length) ms := by
  induction ns generalizing i with
  | nil => simp [unclosedAt]
  | cons n ns ih =>
      cases i with
      | zero => simp [unclosedAt]
      | succ i =>
          have hrest := ih i
          simp only [unclosedAt, List.cons_append, List.modify_succ_cons, List.length_cons] at hrest ⊢
          rw [hrest, Nat.succ_sub_succ]
          simp only [Nat.succ_lt_succ_iff]

/-- A bracket that is not closed becomes a fault. -/
theorem closeAt (h : p.Over whole behind front trivia) (i : Nat) {k : ScriptKind} (hk : ¬ p.isAt k) :
    (p.closeAt (behind.length + i) k).Over whole behind (unclosedAt i front)
      (if i < front.length then trivia else unclosedAt (i - front.length) trivia) := by
  have hnodes : (p.closeAt (behind.length + i) k).nodes.toList = behind ++ unclosedAt i (front ++ trivia) := by
    unfold Parser.closeAt unclosedAt
    rw [if_neg hk, h.getElem? i, List.modify_eq_set_getElem?]
    cases (front ++ trivia)[i]? with
    | none => rw [h.nodes, List.append_assoc]; rfl
    | some n =>
        show (p.nodes.setIfInBounds _ _).toList = behind ++ (front ++ trivia).set i _
        rw [Array.toList_setIfInBounds, h.nodes, List.append_assoc,
          List.set_append_right _ _ (Nat.le_add_right _ _), Nat.add_sub_cancel_left]
  have hcurrent : (p.closeAt (behind.length + i) k).current = p.current := by
    unfold Parser.closeAt
    rw [if_neg hk]
    split <;> rfl
  refine ⟨?_, ?_, h.footed.imp_right ?_⟩
  · rw [hnodes, unclosedAt_append, List.append_assoc]
  · rw [hcurrent, ← h.trivia_eq]
    split
    · rfl
    · exact List.length_modify _ _ _
  · rintro ⟨n, rest, rfl, hn⟩
    cases i with
    | zero => exact ⟨_, rest, rfl, hn.faultOf _⟩
    | succ i => exact ⟨n, _, rfl, hn⟩

end Parser.Over

/-! ## Steps that change the nodes only -/

/-- Two parsers that differ at most in their nodes, in where nesting got too deep and in what they relied on. -/
structure Parser.OnlyNodes (p q : Parser) : Prop where
  lexer : q.lexer = p.lexer
  current : q.current = p.current
  start_eq : q.start = p.start
  depth : q.depth = p.depth
  arrows : q.arrows = p.arrows

theorem Parser.wrap_onlyNodes (p : Parser) (mark : Nat) (k : ScriptKind) : p.OnlyNodes (p.wrap mark k) :=
  ⟨rfl, rfl, rfl, rfl, rfl⟩

theorem Parser.check_onlyNodes (p : Parser) (holds : Bool) : p.OnlyNodes (p.check holds) :=
  ⟨rfl, rfl, rfl, rfl, rfl⟩

theorem Parser.trimFaults_onlyNodes (p : Parser) : p.OnlyNodes p.trimFaults :=
  ⟨rfl, rfl, rfl, rfl, rfl⟩

theorem Parser.expected_onlyNodes (p : Parser) (thing : String) : p.OnlyNodes (p.expected thing) := by
  unfold Parser.expected
  dsimp only
  split <;> exact ⟨rfl, rfl, rfl, rfl, rfl⟩

theorem Parser.closeAt_onlyNodes {k : ScriptKind} (hk : ¬ p.isAt k) (mark : Nat) :
    p.OnlyNodes (p.closeAt mark k) := by
  unfold Parser.closeAt
  rw [if_neg hk]
  split <;> exact ⟨rfl, rfl, rfl, rfl, rfl⟩

/-! ## The next token -/

/-- The next token and the lexer behind it do not depend on the nodes, and neither does what is added to them. -/
theorem readTrivia_apart (previousStop fuel : Nat) (lx : Lexer) (nodes : Array Node) (count : Nat)
    (newline : Bool) :
    (readTrivia previousStop fuel lx nodes count newline).1 =
        (readTrivia previousStop fuel lx #[] count newline).1 ∧
      (readTrivia previousStop fuel lx nodes count newline).2.1 =
        (readTrivia previousStop fuel lx #[] count newline).2.1 ∧
      (readTrivia previousStop fuel lx nodes count newline).2.2.toList =
        nodes.toList ++ (readTrivia previousStop fuel lx #[] count newline).2.2.toList := by
  induction fuel generalizing lx nodes count newline with
  | zero => exact ⟨rfl, rfl, (List.append_nil _).symm⟩
  | succ fuel ih =>
      rw [readTrivia_succ, readTrivia_succ]
      split
      · obtain ⟨hcurrent, hlexer, hnodes⟩ := ih lx.next.2 (nodes.push lx.next.1) (count + 1)
          (newline || lx.next.1.text.toList.any isNewline)
        obtain ⟨hcurrent', hlexer', hnodes'⟩ := ih lx.next.2 (#[].push lx.next.1) (count + 1)
          (newline || lx.next.1.text.toList.any isNewline)
        refine ⟨hcurrent.trans hcurrent'.symm, hlexer.trans hlexer'.symm, ?_⟩
        rw [hnodes, hnodes', Array.toList_push, List.append_assoc]
        rfl
      · exact ⟨rfl, rfl, (List.append_nil _).symm⟩

/-- As many nodes are added as are counted. -/
theorem readTrivia_count (previousStop fuel : Nat) (lx : Lexer) (nodes : Array Node) (count : Nat)
    (newline : Bool) :
    (readTrivia previousStop fuel lx nodes count newline).2.2.size + count =
      (readTrivia previousStop fuel lx nodes count newline).1.trivia + nodes.size := by
  induction fuel generalizing lx nodes count newline with
  | zero => exact Nat.add_comm _ _
  | succ fuel ih =>
      rw [readTrivia_succ]
      split
      · have hrest := ih lx.next.2 (nodes.push lx.next.1) (count + 1)
          (newline || lx.next.1.text.toList.any isNewline)
        rw [Array.size_push] at hrest
        omega
      · exact Nat.add_comm _ _

/-- The white space and comments that a lexer reads before the next token. -/
def Lexer.skipped (lx : Lexer) : List Node :=
  (readCurrent lx #[]).2.2.toList

theorem Parser.eatAs_current (p : Parser) (node : Node) :
    (p.eatAs node).current = (readCurrent p.lexer #[]).1 :=
  (readTrivia_apart _ _ _ _ _ _).1

theorem Parser.eatAs_lexer (p : Parser) (node : Node) :
    (p.eatAs node).lexer = (readCurrent p.lexer #[]).2.1 :=
  (readTrivia_apart _ _ _ _ _ _).2.1

theorem Parser.eatAs_nodes (p : Parser) (node : Node) :
    (p.eatAs node).nodes.toList = p.nodes.toList ++ [node] ++ p.lexer.skipped := by
  have hnodes := (readTrivia_apart p.lexer.place p.lexer.rest.length p.lexer (p.nodes.push node) 0 false).2.2
  rw [Array.toList_push] at hnodes
  exact hnodes

/-- Taking a token puts it in front of what lies behind. -/
theorem Parser.Over.eatAs (h : p.Over whole behind front trivia) (node : Node) :
    (p.eatAs node).Over whole behind (front ++ trivia ++ [node]) p.lexer.skipped := by
  refine ⟨?_, ?_, h.footed.imp_right fun h => (h.append _).append _⟩
  · rw [p.eatAs_nodes, h.nodes]
    simp only [List.append_assoc]
  · rw [p.eatAs_current]
    exact readTrivia_count p.lexer.place p.lexer.rest.length p.lexer #[] 0 false

/-- Taking a firm token puts everything before it behind. -/
theorem Parser.over_eat (p : Parser) (whole : Prop) {node : Node} (hfirm : Firm node) :
    (p.eatAs node).Over whole p.nodes.toList [node] p.lexer.skipped := by
  refine ⟨p.eatAs_nodes node, ?_, .inr ⟨node, [], rfl, hfirm⟩⟩
  rw [p.eatAs_current]
  exact readTrivia_count p.lexer.place p.lexer.rest.length p.lexer #[] 0 false

end ComponentMarkup.Script
