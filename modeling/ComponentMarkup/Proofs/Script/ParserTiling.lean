import ComponentMarkup.Proofs.Script.TokenTiling
import Mathlib.Data.List.Induction

/-!
# What the script parser keeps

The nodes of a script parser, followed by its current token, cover everything that was read.  This holds
although faults without text are put in and taken out again, tokens and branches become faults, and marks
may have grown stale by the time they are used.

A part of the nodes, the base, is never touched again once it ends in a node with text: faults are only
dropped as long as they are empty, and branches start at marks behind the base.  So a group in parentheses
can be read a second time from where it started.

* `Parser.Sound` — the invariant, for a base;
* `Parser.Sound.eatAs`, `Parser.Sound.wrap`, `Parser.Sound.expected`, `Parser.Sound.trimFaults`,
  `Parser.Sound.closeAt` — the steps that keep it;
* `Parser.Sound.finish` — at the end of the tokens, the nodes cover the stretch.
-/

namespace ComponentMarkup.Script

open ComponentMarkup.Text ComponentMarkup.Tree

variable {src : Source} {s : Span} {base : List Node} {p : Parser}

/-! ## The invariant -/

/-- Nodes from a place to a token: a base, what was read behind it, and the white space and comments in
front of the token. -/
def LeadTo (src : Source) (start : Nat) (base : List Node) (c : Current) (nodes : List Node) : Prop :=
  ∃ kept trivia, nodes = base ++ kept ++ trivia ∧ trivia.length = c.trivia ∧
    Run src.Holds start c.previousStop (base ++ kept) ∧
    Run src.Holds c.previousStop c.node.start trivia

/-- Nodes of which the last one, if there is one, covers some text. -/
def Solid (base : List Node) : Prop :=
  ∀ n, base.getLast? = some n → n.start < n.stop

/-- An arrow function that was read from where its group starts. -/
structure ArrowGroup.Sound (src : Source) (stop : Nat) (group : ArrowGroup) : Prop where
  reads : group.lexer.Reads src stop
  stands : group.current.Stands src stop group.lexer
  nodes : LeadTo src group.start [] group.current group.nodes

/-- **The invariant of the parser.**  Its nodes start with the base and cover the text of the stretch up to
the current token. -/
structure Parser.Sound (src : Source) (s : Span) (base : List Node) (p : Parser) : Prop where
  reads : p.lexer.Reads src s.stop
  stands : p.current.Stands src s.stop p.lexer
  start_eq : p.start = s.start
  solid : Solid base
  nodes : LeadTo src s.start base p.current p.nodes.toList
  arrows : ∀ group ∈ p.arrows, group.Sound src s.stop

namespace Solid

theorem nil : Solid [] := by
  intro n hn
  simp at hn

/-- Nodes that end in one with text are a base. -/
theorem concat {ns : List Node} {n : Node} (h : n.start < n.stop) : Solid (ns ++ [n]) := by
  intro m hm
  rw [List.getLast?_concat] at hm
  obtain rfl := Option.some.inj hm
  exact h

end Solid

/-- The place up to which nodes cover the text lies within it. -/
theorem LeadTo.le {start : Nat} {c : Current} {nodes : List Node}
    (h : LeadTo src start base c nodes) :
    start ≤ c.previousStop ∧ c.previousStop ≤ c.node.start := by
  obtain ⟨kept, trivia, _, _, hkept, htrivia⟩ := h
  exact ⟨hkept.le (joinable_places src), htrivia.le (joinable_places src)⟩

/-- All nodes up to a token are a run. -/
theorem LeadTo.run {start : Nat} {c : Current} {nodes : List Node}
    (h : LeadTo src start base c nodes) : Run src.Holds start c.node.start nodes := by
  obtain ⟨kept, trivia, rfl, _, hkept, htrivia⟩ := h
  exact hkept.append htrivia

/-- A longer base may be cut down. -/
theorem LeadTo.of_append {start : Nat} {c : Current} {nodes more : List Node}
    (h : LeadTo src start (base ++ more) c nodes) : LeadTo src start base c nodes := by
  obtain ⟨kept, trivia, rfl, hlen, hkept, htrivia⟩ := h
  refine ⟨more ++ kept, trivia, ?_, hlen, ?_, htrivia⟩
  · simp only [List.append_assoc]
  · rwa [← List.append_assoc]

/-- The nodes read before and those added lead to the next token. -/
theorem TokenRead.leadTo {start stop : Nat} {lx : Lexer} {nodes : Array Node}
    {result : Current × Lexer × Array Node} {more : List Node}
    (h : TokenRead src stop lx.place lx nodes 0 result more)
    (hrun : Run src.Holds start lx.place nodes.toList) :
    LeadTo src start nodes.toList result.1 result.2.2.toList := by
  refine ⟨[], more, ?_, ?_, ?_, ?_⟩
  · rw [h.nodes_eq, List.append_nil]
  · rw [h.trivia_eq, Nat.zero_add]
  · rw [h.previous_eq, List.append_nil]
    exact hrun
  · rw [h.previous_eq]
    exact h.run

namespace Parser.Sound

/-- A parser at the start of a stretch has read nothing but white space and comments. -/
theorem ofSpan (hle : s.start ≤ s.stop) (hstop : s.stop ≤ src.size) :
    (Parser.ofSpan src s).Sound src s [] := by
  have hreads : (Lexer.ofSpan src s).Reads src s.stop := ⟨hle, hstop, rfl⟩
  obtain ⟨more, hmore⟩ := readCurrent_spec #[] hreads
  refine ⟨hmore.reads, hmore.stands, rfl, Solid.nil, hmore.leadTo (Run.nil s.start), ?_⟩
  intro group hgroup
  exact absurd hgroup List.not_mem_nil

/-- Marks set from here on lie behind the base. -/
theorem le_mark (h : p.Sound src s base) : base.length ≤ p.mark := by
  obtain ⟨kept, trivia, hnodes, _⟩ := h.nodes
  have hlen := congrArg List.length hnodes
  rw [Array.length_toList, List.length_append, List.length_append] at hlen
  unfold Parser.mark
  omega

theorem check (h : p.Sound src s base) (holds : Bool) : (p.check holds).Sound src s base :=
  ⟨h.reads, h.stands, h.start_eq, h.solid, h.nodes, h.arrows⟩

theorem leave (h : p.Sound src s base) : p.leave.Sound src s base :=
  ⟨h.reads, h.stands, h.start_eq, h.solid, h.nodes, h.arrows⟩

/-! ## Moving on -/

/-- The current token joins the nodes, whatever node it becomes, and the next one is read. -/
theorem eatAs_spec (h : p.Sound src s base) {node : Node} (hfits : node.Fits src)
    (hspan : node.span = p.current.node.span) :
    (p.eatAs node).lexer.Reads src s.stop ∧
      (p.eatAs node).current.Stands src s.stop (p.eatAs node).lexer ∧
      LeadTo src s.start (p.nodes.toList ++ [node]) (p.eatAs node).current
        (p.eatAs node).nodes.toList ∧
      (p.eatAs node).lexer.rest.length ≤ p.lexer.rest.length - 1 ∧
      (p.lexer.rest = [] → (p.eatAs node).atEnd) := by
  obtain ⟨more, hmore⟩ := readCurrent_spec (p.nodes.push node) h.reads
  have hstart : node.start = p.current.node.start := by rw [Node.start, hspan, Node.start]
  have hstop : node.stop = p.lexer.place := by
    rw [Node.stop, hspan, ← Node.stop, h.stands.stop_eq]
  have hrun := h.nodes.run
  rw [← hstart] at hrun
  have hall := hrun.concat hfits
  rw [hstop] at hall
  have hnodes : (p.nodes.push node).toList = p.nodes.toList ++ [node] := Array.toList_push
  rw [← hnodes] at hall ⊢
  refine ⟨hmore.reads, hmore.stands, hmore.leadTo hall, hmore.shorter, ?_⟩
  intro hrest
  exact beq_iff_eq.mpr (hmore.at_end hrest)

/-- Taking the current token keeps the invariant, whatever node it becomes. -/
theorem eatAs (h : p.Sound src s base) {node : Node} (hfits : node.Fits src)
    (hspan : node.span = p.current.node.span) : (p.eatAs node).Sound src s base := by
  obtain ⟨hreads, hstands, hlead, _⟩ := h.eatAs_spec hfits hspan
  obtain ⟨kept, trivia, hnodes, _⟩ := h.nodes
  rw [hnodes, List.append_assoc, List.append_assoc] at hlead
  exact ⟨hreads, hstands, h.start_eq, h.solid, hlead.of_append, h.arrows⟩

/-- Everything up to a token can be the base once the token is taken, if it has text. -/
theorem eatAs_base (h : p.Sound src s base) {node : Node} (hfits : node.Fits src)
    (hspan : node.span = p.current.node.span) (htext : node.start < node.stop) :
    (p.eatAs node).Sound src s (p.nodes.toList ++ [node]) := by
  obtain ⟨hreads, hstands, hlead, _⟩ := h.eatAs_spec hfits hspan
  exact ⟨hreads, hstands, h.start_eq, Solid.concat htext, hlead, h.arrows⟩

theorem eat (h : p.Sound src s base) : p.eat.Sound src s base :=
  h.eatAs h.stands.fits rfl

theorem eatKnown (h : p.Sound src s base) (k : ScriptKind) : (p.eatKnown k).Sound src s base :=
  (h.check _).eat

/-- Taking the current token as one of another kind keeps the invariant. -/
theorem eatWithKind (h : p.Sound src s base) (k : ScriptKind) :
    (p.eatWithKind k).Sound src s base :=
  (h.check _).eatAs h.stands.fits.withKind (Node.span_withKind _ _)

theorem eatIf (h : p.Sound src s base) (k : ScriptKind) : (p.eatIf k).1.Sound src s base := by
  unfold Parser.eatIf
  split
  · exact h.eat
  · exact h

theorem skip (h : p.Sound src s base) (k : ScriptKind) : (p.skip k).Sound src s base :=
  h.eatIf k

theorem eatAll (fuel : Nat) (h : p.Sound src s base) : (Parser.eatAll fuel p).Sound src s base := by
  induction fuel generalizing p with
  | zero => exact h
  | succ fuel ih =>
      unfold Parser.eatAll
      split
      · exact h
      · exact ih h.eat

/-- Entering a level of nesting, or taking the rest as it is, keeps the invariant. -/
theorem enter (h : p.Sound src s base) : p.enter.1.Sound src s base := by
  unfold Parser.enter
  split
  · exact eatAll _ ⟨h.reads, h.stands, h.start_eq, h.solid, h.nodes, h.arrows⟩
  · exact ⟨h.reads, h.stands, h.start_eq, h.solid, h.nodes, h.arrows⟩

/-! ## Wrapping -/

/-- Where a branch at a mark starts: behind the nodes before the mark. -/
theorem placeAt_eq {before rest : List Node} {place : Nat} (hstart : p.start = s.start)
    (hnodes : p.nodes.toList = before ++ rest) (hrun : Run src.Holds s.start place before) :
    p.placeAt before.length = place := by
  have hlast := hrun.chain.stop_eq
  unfold Parser.placeAt
  cases hbefore : before.length with
  | zero =>
      obtain rfl := List.length_eq_zero_iff.mp hbefore
      rw [if_pos rfl, hstart]
      exact hrun.chain
  | succ n =>
      have hget : p.nodes[n]? = before.getLast? := by
        rw [← Array.getElem?_toList, hnodes, List.getElem?_append_left (by omega),
          List.getLast?_eq_getElem?, hbefore, Nat.add_sub_cancel]
      rw [if_neg (Nat.succ_ne_zero n), Nat.add_sub_cancel, hget, hstart]
      exact hlast

/-- What wrapping makes of the nodes. -/
theorem wrap_nodes {before children trivia : List Node} {mark : Nat} {kind : ScriptKind}
    (hnodes : p.nodes.toList = before ++ children ++ trivia) (htrivia : trivia.length = p.current.trivia)
    (hmark : min mark (before ++ children).length = before.length) :
    (p.wrap mark kind).nodes.toList =
      before ++ [Node.branchAt (.script kind) (p.placeAt before.length) children] ++ trivia := by
  have hsize : p.nodes.size = (before ++ children).length + trivia.length := by
    rw [← Array.length_toList, hnodes, List.length_append]
  have hstop : p.markBeforeTrivia = (before ++ children).length := by
    unfold Parser.markBeforeTrivia
    omega
  simp only [Parser.wrap, Parser.check, hstop, hmark, Array.toList_append, Array.toList_push,
    Array.toList_extract, List.extract_eq_take_drop, hnodes]
  have hfirst : (before ++ children ++ trivia).take before.length = before := by
    rw [List.append_assoc, List.take_left]
  have hmiddle : ((before ++ children ++ trivia).drop before.length).take
      ((before ++ children).length - before.length) = children := by
    rw [List.append_assoc, List.drop_left, List.length_append, Nat.add_sub_cancel_left, List.take_left]
  have hlast : ((before ++ children ++ trivia).drop (before ++ children).length).take
      (p.nodes.size - (before ++ children).length) = trivia := by
    rw [List.drop_left, hsize, Nat.add_sub_cancel_left, List.take_length]
  rw [Nat.sub_zero, List.drop_zero, hfirst, hmiddle, hlast]

/-- Wrapping puts a branch in the place of a part of the nodes. -/
theorem wrap_spec (h : p.Sound src s base) {before children trivia : List Node} {mark : Nat}
    (kind : ScriptKind) (hnodes : p.nodes.toList = before ++ children ++ trivia)
    (htrivia : trivia.length = p.current.trivia)
    (hmark : min mark (before ++ children).length = before.length)
    (hkept : Run src.Holds s.start p.current.previousStop (before ++ children)) :
    ∃ branch place, (p.wrap mark kind).nodes.toList = before ++ [branch] ++ trivia ∧
      Run src.Holds s.start place before ∧ Run src.Holds place p.current.previousStop children ∧
      branch.Fits src ∧ branch.span = ⟨place, p.current.previousStop⟩ := by
  obtain ⟨place, hbefore, hchildren⟩ := hkept.split
  have hplace : p.placeAt before.length = place :=
    placeAt_eq h.start_eq (by rw [hnodes, List.append_assoc]) hbefore
  have hin : place ≤ src.size := by
    have hle := hchildren.le (joinable_places src)
    have hnext := h.nodes.le.2
    have htoken := h.stands.fits.le
    have hsize := h.stands.fits.stop_le
    omega
  obtain ⟨hfits, hspan⟩ := hchildren.branchAt (.script kind) (src.holds_empty hin)
  refine ⟨Node.branchAt (.script kind) place children, place, ?_, hbefore, hchildren, hfits, hspan⟩
  rw [wrap_nodes hnodes htrivia hmark, hplace]

/-- Wrapping from a mark behind the base keeps the invariant. -/
theorem wrap (h : p.Sound src s base) {mark : Nat} (hmark : base.length ≤ mark) (kind : ScriptKind) :
    (p.wrap mark kind).Sound src s base := by
  obtain ⟨kept, trivia, hnodes, htrivia, hkept, hlast⟩ := h.nodes
  -- the mark may be stale: it counts only up to the white space before the current token
  have hsplit : base ++ kept =
      base ++ kept.take (mark - base.length) ++ kept.drop (mark - base.length) := by
    rw [List.append_assoc, List.take_append_drop]
  rw [hsplit] at hnodes hkept
  have hmin : min mark (base ++ kept.take (mark - base.length) ++
      kept.drop (mark - base.length)).length =
        (base ++ kept.take (mark - base.length)).length := by
    rw [← hsplit, List.length_append, List.length_append, List.length_take]
    omega
  obtain ⟨branch, place, hwrap, hbefore, _, hfits, hspan⟩ :=
    h.wrap_spec kind hnodes htrivia hmin hkept
  refine ⟨h.reads, h.stands, h.start_eq, h.solid, ?_, h.arrows⟩
  refine ⟨kept.take (mark - base.length) ++ [branch], trivia, ?_, htrivia, ?_, hlast⟩
  · rw [hwrap]
    simp only [List.append_assoc]
  · have hstart : branch.start = place := by rw [Node.start, hspan]
    have hstop : branch.stop = p.current.previousStop := by rw [Node.stop, hspan]
    rw [← hstart] at hbefore
    have hall := hbefore.concat hfits
    rw [hstop, List.append_assoc] at hall
    exact hall

/-- Wrapping from the last node of the base on makes the branch the last node of the base. -/
theorem wrap_base {ns : List Node} {n : Node} (h : p.Sound src s (ns ++ [n])) (kind : ScriptKind) :
    ∃ branch, (p.wrap ns.length kind).Sound src s (ns ++ [branch]) := by
  obtain ⟨kept, trivia, hnodes, htrivia, hkept, hlast⟩ := h.nodes
  rw [List.append_assoc ns] at hnodes hkept
  have hmin : min ns.length (ns ++ ([n] ++ kept)).length = ns.length := by
    rw [List.length_append]
    omega
  obtain ⟨branch, place, hwrap, hbefore, hchildren, hfits, hspan⟩ :=
    h.wrap_spec kind hnodes htrivia hmin hkept
  have hstart : branch.start = place := by rw [Node.start, hspan]
  have hstop : branch.stop = p.current.previousStop := by rw [Node.stop, hspan]
  obtain ⟨hplace, hn, hrest⟩ := Run.of_cons hchildren
  have hle := hrest.le (joinable_places src)
  have htext := h.solid n List.getLast?_concat
  refine ⟨branch, h.reads, h.stands, h.start_eq, Solid.concat (by omega), ?_, h.arrows⟩
  refine ⟨[], trivia, ?_, htrivia, ?_, hlast⟩
  · show (p.wrap ns.length kind).nodes.toList = _
    rw [hwrap, List.append_nil]
  · rw [← hstart] at hbefore
    have hall := hbefore.concat hfits
    rwa [hstop, ← List.append_nil (ns ++ [branch])] at hall

/-! ## Faults -/

/-- The node that a fault is made of keeps its text and place. -/
theorem faultOf_spec {n : Node} (hn : n.Fits src) (message : String) :
    (Parser.faultOf n message).Fits src ∧ (Parser.faultOf n message).span = n.span := by
  unfold Parser.faultOf
  split
  · exact ⟨hn, rfl⟩
  · have hlen := hn.length_fullText
    have hle := hn.le
    have hspan : (⟨n.start, n.start + n.fullText.length⟩ : Span) = n.span := by
      rw [hlen, Nat.add_sub_cancel' hle]
      rfl
    simp only [hspan]
    exact ⟨.fault (hn.holds_fullText (joinable_places src)), rfl⟩

/-- Another hint changes neither text nor place. -/
theorem hint_spec {n : Node} (hn : n.Fits src) (text : String) :
    (n.hint text).Fits src ∧ (n.hint text).span = n.span := by
  cases hn with
  | leaf text_eq => exact ⟨.leaf text_eq, rfl⟩
  | fault text_eq => exact ⟨.fault text_eq, rfl⟩
  | inner chain empty hosted parts => exact ⟨.inner chain empty hosted parts, rfl⟩

/-- The mark before the white space in front of the current token. -/
theorem markBeforeTrivia_eq {before trivia : List Node} (hnodes : p.nodes.toList = before ++ trivia)
    (htrivia : trivia.length = p.current.trivia) :
    p.markBeforeTrivia = before.length ∧ p.nodes.size = before.length + trivia.length := by
  have hsize : p.nodes.size = before.length + trivia.length := by
    rw [← Array.length_toList, hnodes, List.length_append]
  unfold Parser.markBeforeTrivia
  omega

/-- The token before the current one ends within the text. -/
theorem previousStop_le (h : p.Sound src s base) : p.current.previousStop ≤ src.size := by
  have hnext := h.nodes.le.2
  have htoken := h.stands.fits.le
  have hstop := h.stands.fits.stop_le
  omega

/-- A fault without text may be put in front of the white space before the current token. -/
theorem expected (h : p.Sound src s base) (thing : String) : (p.expected thing).Sound src s base := by
  obtain ⟨kept, trivia, hnodes, htrivia, hkept, hlast⟩ := h.nodes
  obtain ⟨hmark, hsize⟩ := markBeforeTrivia_eq hnodes htrivia
  unfold Parser.expected
  simp only [hmark, Parser.check]
  split
  · exact ⟨h.reads, h.stands, h.start_eq, h.solid, h.nodes, h.arrows⟩
  · refine ⟨h.reads, h.stands, h.start_eq, h.solid, ?_, h.arrows⟩
    have hfault : (Node.fault ("expected " ++ thing) [] ""
        ⟨p.current.previousStop, p.current.previousStop⟩).Fits src :=
      .fault (src.holds_empty h.previousStop_le)
    refine ⟨kept ++ [Node.fault ("expected " ++ thing) [] ""
        ⟨p.current.previousStop, p.current.previousStop⟩], trivia, ?_, htrivia, ?_, hlast⟩
    · simp only [Array.toList_append, Array.toList_push, Array.toList_extract,
        List.extract_eq_take_drop, hnodes, Nat.sub_zero, List.drop_zero, List.take_left, List.drop_left]
      rw [hsize, Nat.add_sub_cancel_left, List.take_length, List.append_assoc base kept]
    · rw [← List.append_assoc]
      exact hkept.concat hfault

/-- Going back over empty faults leaves a base alone and changes nothing about the text that is covered. -/
theorem emptyFaultsStart_spec {nodes : Array Node} {kept rest : List Node} {start place : Nat}
    (hsolid : Solid base) (hnodes : nodes.toList = base ++ kept ++ rest)
    (hrun : Run src.Holds start place (base ++ kept)) :
    ∃ left, left <+: kept ∧
      Parser.emptyFaultsStart nodes (base ++ kept).length = (base ++ left).length ∧
      Run src.Holds start place (base ++ left) := by
  induction kept using List.reverseRecOn generalizing rest with
  | nil =>
      refine ⟨[], List.prefix_rfl, ?_, hrun⟩
      rw [List.append_nil] at hnodes ⊢
      cases base using List.reverseRecOn with
      | nil => rfl
      | append_singleton ns n =>
          have htext := hsolid n List.getLast?_concat
          have hget : nodes[ns.length]? = some n := by
            rw [← Array.getElem?_toList, hnodes, List.append_assoc,
              List.getElem?_append_right (Nat.le_refl _), Nat.sub_self]
            rfl
          have hsize : n.span.size ≠ 0 := by
            show n.stop - n.start ≠ 0
            omega
          simp [Parser.emptyFaultsStart, hget, hsize]
  | append_singleton ns n ih =>
      have hget : nodes[(base ++ ns).length]? = some n := by
        rw [← Array.getElem?_toList, hnodes, ← List.append_assoc base, List.append_assoc _ _ rest,
          List.getElem?_append_right (Nat.le_refl _), Nat.sub_self]
        rfl
      have hcount : (base ++ (ns ++ [n])).length = (base ++ ns).length + 1 := by
        rw [← List.append_assoc, List.length_append, List.length_singleton]
      rw [hcount, Parser.emptyFaultsStart, hget, Option.any_some]
      by_cases hempty : n.isFault && n.span.size == 0
      · rw [if_pos hempty]
        rw [← List.append_assoc] at hrun
        obtain ⟨m, hbefore, hlast⟩ := hrun.split
        obtain ⟨hstart, hfits, hnil⟩ := hlast.of_cons
        have hle := Node.Fits.le hfits
        have hsize : n.stop - n.start = 0 := by
          rw [Bool.and_eq_true, beq_iff_eq] at hempty
          exact hempty.2
        have hplace : n.stop = place := hnil.chain
        have hm : m = place := by omega
        rw [hm] at hbefore
        have hrest : nodes.toList = base ++ ns ++ (n :: rest) := by
          rw [hnodes]
          simp only [List.append_assoc, List.singleton_append]
        obtain ⟨left, hleft, heq, hcovers⟩ := ih hrest hbefore
        exact ⟨left, hleft.trans (List.prefix_append _ _), heq, hcovers⟩
      · rw [if_neg hempty]
        exact ⟨ns ++ [n], List.prefix_rfl, hcount.symm, hrun⟩

/-- Dropping faults without text keeps the invariant. -/
theorem trimFaults (h : p.Sound src s base) : p.trimFaults.Sound src s base := by
  obtain ⟨kept, trivia, hnodes, htrivia, hkept, hlast⟩ := h.nodes
  obtain ⟨hmark, hsize⟩ := markBeforeTrivia_eq hnodes htrivia
  obtain ⟨left, hleft, hstart, hcovers⟩ := emptyFaultsStart_spec h.solid hnodes hkept
  obtain ⟨dropped, rfl⟩ := hleft
  refine ⟨h.reads, h.stands, h.start_eq, h.solid, ⟨left, trivia, ?_, htrivia, hcovers, hlast⟩, h.arrows⟩
  show p.trimFaults.nodes.toList = _
  have hfirst : (base ++ (left ++ dropped) ++ trivia).take (base ++ left).length = base ++ left := by
    rw [← List.append_assoc base, List.append_assoc _ dropped, List.take_left]
  have hlast : (base ++ (left ++ dropped) ++ trivia).drop (base ++ (left ++ dropped)).length =
      trivia := List.drop_left
  unfold Parser.trimFaults
  simp only [hmark, hstart, Array.toList_append, Array.toList_extract, List.extract_eq_take_drop,
    hnodes, Nat.sub_zero, List.drop_zero, hfirst, hlast]
  rw [hsize, Nat.add_sub_cancel_left, List.take_length]

/-- Taking the current token as one that must not stand here keeps the invariant. -/
theorem unexpected (h : p.Sound src s base) : p.unexpected.Sound src s base := by
  have hfault := faultOf_spec h.trimFaults.stands.fits
    ("unexpected " ++ p.trimFaults.current.node.kind.title)
  exact h.trimFaults.eatAs hfault.1 hfault.2

/-- Taking a reserved word as an identifier keeps the invariant. -/
theorem eatReserved (h : p.Sound src s base) : p.eatReserved.Sound src s base := by
  have hfault := faultOf_spec h.trimFaults.stands.fits
    ("expected " ++ ScriptKind.ident.title ++ ", found " ++ p.trimFaults.current.node.kind.title)
  have hhint := hint_spec hfault.1
  exact h.trimFaults.eatAs (hhint _).1 ((hhint _).2.trans hfault.2)

theorem expect (h : p.Sound src s base) (k : ScriptKind) : (p.expect k).1.Sound src s base := by
  unfold Parser.expect
  split
  · exact h.eat
  · split
    · exact h.eatReserved
    · exact h.expected _

theorem require (h : p.Sound src s base) (k : ScriptKind) : (p.require k).Sound src s base :=
  h.expect k

/-- An opening bracket behind the base may become a fault. -/
theorem closeAt (h : p.Sound src s base) {mark : Nat} (hmark : base.length ≤ mark) (k : ScriptKind) :
    (p.closeAt mark k).Sound src s base := by
  unfold Parser.closeAt
  split
  · exact h.eat
  · split
    · rename_i n hn
      obtain ⟨kept, trivia, hnodes, htrivia, hkept, hlast⟩ := h.nodes
      rw [← Array.getElem?_toList, hnodes] at hn
      have hfits := h.nodes.run.tiles n (by rw [hnodes]; exact List.mem_of_getElem? hn)
      obtain ⟨hfault, hspan⟩ := faultOf_spec hfits "unclosed delimiter"
      refine ⟨h.reads, h.stands, h.start_eq, h.solid, ?_, h.arrows⟩
      show LeadTo src s.start base p.current (p.nodes.setIfInBounds mark _).toList
      rw [Array.toList_setIfInBounds, hnodes, List.append_assoc, List.set_append_right _ _ hmark]
      by_cases hin : mark - base.length < kept.length
      · -- the bracket stands before the white space in front of the current token
        rw [List.set_append_left _ _ hin]
        refine ⟨_, trivia, (List.append_assoc _ _ _).symm, htrivia, ?_, hlast⟩
        rw [← List.set_append_right _ _ hmark]
        refine hkept.set hfault ?_
        intro m hm
        rw [List.getElem?_append_left (by rw [List.length_append]; omega), hm] at hn
        rw [hspan, Option.some.inj hn]
      · have hout : kept.length ≤ mark - base.length := by omega
        rw [List.set_append_right _ _ hout]
        refine ⟨kept, _, (List.append_assoc _ _ _).symm, ?_, hkept, ?_⟩
        · rw [List.length_set, htrivia]
        · refine hlast.set hfault ?_
          intro m hm
          rw [List.getElem?_append_right (by rw [List.length_append]; omega), List.length_append,
            Nat.sub_add_eq, hm] at hn
          rw [hspan, Option.some.inj hn]
    · exact h

/-- An opening bracket at the end of the base stays there, as it is or as a fault. -/
theorem closeAt_base {ns : List Node} {n : Node} (h : p.Sound src s (ns ++ [n])) (k : ScriptKind) :
    ∃ m, (p.closeAt ns.length k).Sound src s (ns ++ [m]) := by
  obtain ⟨kept, trivia, hnodes, htrivia, hkept, hlast⟩ := h.nodes
  have hget : p.nodes[ns.length]? = some n := by
    rw [← Array.getElem?_toList, hnodes, List.append_assoc, List.append_assoc,
      List.getElem?_append_right (Nat.le_refl _), Nat.sub_self]
    rfl
  unfold Parser.closeAt
  split
  · exact ⟨n, h.eat⟩
  · rw [hget]
    have hfits := h.nodes.run.tiles n (by rw [hnodes]; simp)
    obtain ⟨hfault, hspan⟩ := faultOf_spec hfits "unclosed delimiter"
    refine ⟨Parser.faultOf n "unclosed delimiter", h.reads, h.stands, h.start_eq, ?_, ?_, h.arrows⟩
    · refine Solid.concat ?_
      rw [Node.start, Node.stop, hspan]
      exact h.solid n List.getLast?_concat
    · show LeadTo src s.start _ p.current (p.nodes.setIfInBounds ns.length _).toList
      have hset : ∀ m rest, (ns ++ [n] ++ rest).set ns.length m = ns ++ [m] ++ rest := by
        intro m rest
        rw [List.append_assoc, List.set_append_right _ _ (Nat.le_refl _), Nat.sub_self]
        simp
      rw [Array.toList_setIfInBounds, hnodes, List.append_assoc, hset]
      refine ⟨kept, trivia, (List.append_assoc _ _ _).symm, htrivia, ?_, hlast⟩
      rw [← hset _ kept]
      refine hkept.set hfault ?_
      intro m hm
      rw [List.append_assoc, List.getElem?_append_right (Nat.le_refl _), Nat.sub_self] at hm
      rw [hspan, ← Option.some.inj hm]

/-! ## Going back -/

/-- Going back leaves the nodes of the earlier parser, if they are still there. -/
theorem rewind_kept {later : Parser} (hkept : p.nodes.toList <+: later.nodes.toList) :
    (later.rewind p).nodes.toList = p.nodes.toList := by
  show (later.nodes.extract 0 p.nodes.size).toList = _
  rw [Array.toList_extract, List.extract_eq_take_drop, List.drop_zero, Nat.sub_zero, ← Array.length_toList,
    ← List.prefix_iff_eq_take.mp hkept]

/-- Nodes that are part of a base are still there. -/
theorem kept {later : Parser} {ns more : List Node} (hlater : later.Sound src s (ns ++ more)) :
    ns <+: later.nodes.toList := by
  obtain ⟨kept, trivia, hnodes, _⟩ := hlater.nodes
  exact ⟨more ++ (kept ++ trivia), by rw [hnodes, List.append_assoc, List.append_assoc]⟩

theorem rewind_nodes {later : Parser} {more : List Node}
    (hlater : later.Sound src s (p.nodes.toList ++ more)) :
    (later.rewind p).nodes.toList = p.nodes.toList :=
  rewind_kept hlater.kept

/-- A parser goes back to an earlier one whose nodes it still has. -/
theorem rewind {later : Parser} {more : List Node} (h : p.Sound src s base)
    (hlater : later.Sound src s (p.nodes.toList ++ more)) : (later.rewind p).Sound src s base := by
  refine ⟨h.reads, h.stands, hlater.start_eq, h.solid, ?_, hlater.arrows⟩
  rw [rewind_nodes hlater]
  exact h.nodes

/-- An arrow function that is known to start here may be taken as it was read before. -/
theorem replay (h : p.Sound src s base) {group : ArrowGroup} (hknown : p.knownArrow? = some group) :
    (p.replay group).Sound src s base := by
  have hgroup := h.arrows group (List.mem_of_find?_eq_some hknown)
  have hplace := List.find?_some hknown
  rw [beq_iff_eq] at hplace
  refine ⟨hgroup.reads, hgroup.stands, h.start_eq, h.solid, ?_, h.arrows⟩
  obtain ⟨kept, trivia, hnodes, _⟩ := h.nodes
  obtain ⟨more, rest, hmore, hrest, hcovers, hlast⟩ := hgroup.nodes
  have hrun := h.nodes.run
  rw [← hplace, hnodes] at hrun
  refine ⟨kept ++ trivia ++ more, rest, ?_, hrest, ?_, hlast⟩
  · show (p.nodes ++ group.nodes.toArray).toList = _
    rw [Array.toList_append, hnodes, hmore]
    simp only [List.nil_append, List.append_assoc]
  · have hall := hrun.append hcovers
    simp only [List.nil_append, List.append_assoc] at hall ⊢
    exact hall

/-- What was read since an earlier parser may be remembered as an arrow function. -/
theorem remember {later : Parser} {more : List Node} (h : p.Sound src s base)
    (hlater : LeadTo src s.start (p.nodes.toList ++ more) later.current later.nodes.toList)
    (hbase : later.Sound src s base) : (later.remember p.current.node.start p.nodes.size).Sound src s base := by
  refine ⟨hbase.reads, hbase.stands, hbase.start_eq, hbase.solid, hbase.nodes, ?_⟩
  intro group hgroup
  rcases List.mem_cons.mp hgroup with rfl | hgroup
  · refine ⟨hbase.reads, hbase.stands, ?_⟩
    obtain ⟨kept, trivia, hnodes, htrivia, hkept, hlast⟩ := hlater
    rw [List.append_assoc] at hkept
    obtain ⟨place, hbefore, hafter⟩ := hkept.split
    -- the nodes from before lead to the same place as when they were all there was
    obtain rfl := hbefore.chain.stop_unique h.nodes.run.chain
    refine ⟨more ++ kept, trivia, ?_, htrivia, hafter, hlast⟩
    show (later.nodes.extract p.nodes.size later.nodes.size).toList = _
    have hsize : later.nodes.size = p.nodes.toList.length + (more ++ (kept ++ trivia)).length := by
      rw [← Array.length_toList, hnodes, List.append_assoc, List.append_assoc, List.length_append]
    rw [Array.toList_extract, List.extract_eq_take_drop, hsize, ← Array.length_toList, hnodes,
      List.append_assoc, List.append_assoc, List.drop_left, Nat.add_sub_cancel_left, List.take_length]
    simp only [List.nil_append, List.append_assoc]
  · exact hbase.arrows group hgroup

/-! ## Repeating -/

/-- A step that keeps the invariant may be repeated. -/
theorem repeatStep {step : Parser → Parser × Bool}
    (hstep : ∀ q : Parser, q.Sound src s base → (step q).1.Sound src s base) (fuel : Nat)
    (h : p.Sound src s base) : (Parser.repeatStep step fuel p).Sound src s base := by
  induction fuel generalizing p with
  | zero => exact h
  | succ fuel ih =>
      have hnext := hstep p h
      unfold Parser.repeatStep
      split
      · rename_i q hq
        rw [hq] at hnext
        exact ih hnext
      · rename_i q hq
        rwa [hq] at hnext

theorem loop {step : Parser → Parser × Bool}
    (hstep : ∀ q : Parser, q.Sound src s base → (step q).1.Sound src s base)
    (h : p.Sound src s base) : (p.loop step).Sound src s base :=
  repeatStep hstep _ h

/-- A step that keeps the invariant may be repeated up to a token. -/
theorem loopUntil {step : Parser → Parser}
    (hstep : ∀ q : Parser, q.Sound src s base → (step q).Sound src s base)
    (stops : List ScriptKind) (h : p.Sound src s base) : (p.loopUntil stops step).Sound src s base := by
  refine loop ?_ h
  intro q hq
  show (if q.isAtAny stops then (q, false) else (step q, true)).1.Sound src s base
  split
  · exact hq
  · exact hstep q hq

/-! ## The end -/

/-- With enough fuel all tokens are taken. -/
theorem eatAll_atEnd (fuel : Nat) (h : p.Sound src s base) (hfuel : p.lexer.rest.length < fuel) :
    (Parser.eatAll fuel p).atEnd := by
  induction fuel generalizing p with
  | zero => exact absurd hfuel (Nat.not_lt_zero _)
  | succ fuel ih =>
      unfold Parser.eatAll
      split
      · assumption
      · obtain ⟨_, _, _, hshort, hend⟩ := h.eatAs_spec h.stands.fits rfl
        by_cases hrest : p.lexer.rest = []
        · -- nothing follows the current token
          have hdone : p.eat.atEnd := hend hrest
          cases fuel with
          | zero => exact hdone
          | succ fuel =>
              rw [Parser.eatAll, if_pos hdone]
              exact hdone
        · have hpos := List.length_pos_iff.mpr hrest
          refine ih h.eat ?_
          show (p.eatAs p.current.node).lexer.rest.length < fuel
          omega

/-- **The root covers the stretch.**  Once all tokens are taken, the root over all nodes covers what was to
be parsed. -/
theorem finish (h : p.Sound src s base) (kind : ScriptKind) :
    ((p.eatAll p.budget).finish kind).value.Fits src ∧
      ((p.eatAll p.budget).finish kind).value.span = s := by
  have hall := h.eatAll p.budget
  have hend := h.eatAll_atEnd p.budget (by unfold Parser.budget; omega)
  have hplace := hall.stands.at_end (eq_of_beq hend)
  have hrun := hall.nodes.run
  rw [hplace] at hrun
  have hin : s.start ≤ src.size :=
    Nat.le_trans (hrun.le (joinable_places src)) h.reads.stop_le
  have hroot := hrun.branchAt (.script kind) (src.holds_empty hin)
  unfold Parser.finish
  rw [hall.start_eq]
  exact hroot

end Parser.Sound

end ComponentMarkup.Script
