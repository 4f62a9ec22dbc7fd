import ComponentMarkup.Proofs.Script.SideBySide
import ComponentMarkup.Proofs.Tree.MarkupHeight

/-!
# Scripts have no documents in them

A script is read by the script grammar alone: commands in it are tokens until other trees are grafted in.  So as long
as only branches of documents count, a script has no height, however deep its expressions nest.

* `Parser.Unmounted` — no node of a parser has a branch of a document in it;
* `unmounted_simulation` — every step of the parser keeps that;
* `readNamed_flat` — a script has no height.
-/

namespace ComponentMarkup.Script

open ComponentMarkup.Text ComponentMarkup.Tree

variable {ns : List Node}

/-! ## Nodes of scripts -/

theorem branchAt_script (h : UpTo 0 ns) (k : ScriptKind) (place : Nat) :
    (Node.branchAt (.script k) place ns).markupHeight ≤ 0 := by
  unfold Node.branchAt
  split
  · exact Nat.le_refl 0
  · exact h.heightOf

theorem extract_upTo {nodes : Array Node} (h : UpTo 0 nodes.toList) (i j : Nat) :
    UpTo 0 (nodes.extract i j).toList := by
  intro n hn
  rw [Array.toList_extract, List.extract_eq_take_drop] at hn
  exact h n (List.mem_of_mem_drop (List.mem_of_mem_take hn))

theorem push_upTo {nodes : Array Node} {n : Node} (h : UpTo 0 nodes.toList) (hn : n.markupHeight ≤ 0) :
    UpTo 0 (nodes.push n).toList := by
  rw [Array.toList_push]
  exact h.append (.single hn)

theorem next_flat (lx : Lexer) : lx.next.1.markupHeight ≤ 0 := by
  unfold Lexer.next
  split
  · exact Nat.le_refl 0
  · dsimp only
    split
    · exact Nat.le_refl 0
    · exact Nat.le_refl 0

theorem faultOf_flat {n : Node} (h : n.markupHeight ≤ 0) (message : String) :
    (Parser.faultOf n message).markupHeight ≤ 0 := by
  unfold Parser.faultOf
  split
  · exact h
  · exact Nat.le_refl 0

theorem hint_flat {n : Node} (h : n.markupHeight ≤ 0) (text : String) : (n.hint text).markupHeight ≤ 0 := by
  cases n with
  | leaf => exact h
  | inner => exact h
  | fault => exact h

theorem withIdent_flat {n : Node} (h : n.markupHeight ≤ 0) : (n.withKind (.script .ident)).markupHeight ≤ 0 := by
  cases n with
  | leaf => exact h
  | inner => exact Nat.le_trans (Nat.le_add_right _ _) h
  | fault => exact h

/-! ## The parser -/

/-- A parser without branches of documents in its nodes. -/
structure Parser.Unmounted (p : Parser) : Prop where
  current : p.current.node.markupHeight ≤ 0
  nodes : UpTo 0 p.nodes.toList
  arrows : ∀ g ∈ p.arrows, g.current.node.markupHeight ≤ 0 ∧ UpTo 0 g.nodes

theorem readTrivia_unmounted (previousStop fuel : Nat) (lx : Lexer) {nodes : Array Node} (trivia : Nat)
    (newline : Bool) (h : UpTo 0 nodes.toList) :
    (readTrivia previousStop fuel lx nodes trivia newline).1.node.markupHeight ≤ 0 ∧
      UpTo 0 (readTrivia previousStop fuel lx nodes trivia newline).2.2.toList := by
  induction fuel generalizing lx nodes trivia newline with
  | zero => exact ⟨next_flat lx, h⟩
  | succ fuel ih =>
      rw [readTrivia]
      dsimp only
      split
      · exact ih _ _ _ (push_upTo h (next_flat lx))
      · exact ⟨next_flat lx, h⟩

namespace Parser.Unmounted

variable {p q : Parser}

theorem ofSpan (src : Source) (s : Span) : (Parser.ofSpan src s).Unmounted := by
  obtain ⟨hcurrent, hnodes⟩ := readTrivia_unmounted (Lexer.ofSpan src s).place (Lexer.ofSpan src s).rest.length
    (.ofSpan src s) 0 false (UpTo.nil : UpTo 0 (#[] : Array Node).toList)
  exact ⟨hcurrent, hnodes, fun g hg => absurd hg List.not_mem_nil⟩

theorem eatAs (h : p.Unmounted) {n : Node} (hn : n.markupHeight ≤ 0) : (p.eatAs n).Unmounted := by
  obtain ⟨hcurrent, hnodes⟩ := readTrivia_unmounted p.lexer.place p.lexer.rest.length p.lexer 0 false
    (push_upTo h.nodes hn)
  exact ⟨hcurrent, hnodes, h.arrows⟩

theorem eat (h : p.Unmounted) : p.eat.Unmounted :=
  h.eatAs h.current

theorem eatAll (fuel : Nat) (h : p.Unmounted) : (Parser.eatAll fuel p).Unmounted := by
  induction fuel generalizing p with
  | zero => exact h
  | succ fuel ih =>
      unfold Parser.eatAll
      split
      · exact h
      · exact ih h.eat

theorem wrap (h : p.Unmounted) (mark : Nat) (k : ScriptKind) : (p.wrap mark k).Unmounted := by
  refine ⟨h.current, ?_, h.arrows⟩
  show UpTo 0 (Array.toList (_ ++ _))
  rw [Array.toList_append]
  exact (push_upTo (extract_upTo h.nodes _ _) (branchAt_script (extract_upTo h.nodes _ _) k _)).append
    (extract_upTo h.nodes _ _)

theorem expected (h : p.Unmounted) (thing : String) : (p.expected thing).Unmounted := by
  unfold Parser.expected
  dsimp only
  split
  · exact ⟨h.current, h.nodes, h.arrows⟩
  · refine ⟨h.current, ?_, h.arrows⟩
    rw [Array.toList_append]
    exact (push_upTo (n := .fault _ _ _ _) (extract_upTo h.nodes _ _) (Nat.le_refl 0)).append (extract_upTo h.nodes _ _)

theorem trimFaults (h : p.Unmounted) : p.trimFaults.Unmounted := by
  refine ⟨h.current, ?_, h.arrows⟩
  show UpTo 0 (Array.toList (_ ++ _))
  rw [Array.toList_append]
  exact (extract_upTo h.nodes _ _).append (extract_upTo h.nodes _ _)

theorem unexpected (h : p.Unmounted) : p.unexpected.Unmounted :=
  h.trimFaults.eatAs (faultOf_flat h.trimFaults.current _)

theorem eatReserved (h : p.Unmounted) : p.eatReserved.Unmounted :=
  h.trimFaults.eatAs (hint_flat (faultOf_flat h.trimFaults.current _) _)

theorem closeAt (h : p.Unmounted) (mark : Nat) (k : ScriptKind) : (p.closeAt mark k).Unmounted := by
  unfold Parser.closeAt
  split
  · exact h.eat
  · split
    · rename_i n hn
      refine ⟨h.current, fun m hm => ?_, h.arrows⟩
      rw [Array.toList_setIfInBounds] at hm
      rcases List.mem_or_eq_of_mem_set hm with hm | rfl
      · exact h.nodes m hm
      · exact faultOf_flat (h.nodes n (Array.mem_toList_iff.mpr (Array.mem_of_getElem? hn))) _
    · exact h

theorem enter (h : p.Unmounted) : p.enter.1.Unmounted := by
  unfold Parser.enter
  split
  · exact eatAll _ ⟨h.current, h.nodes, h.arrows⟩
  · exact ⟨h.current, h.nodes, h.arrows⟩

theorem replay (h : p.Unmounted) {g : ArrowGroup} (hg : p.knownArrow? = some g) : (p.replay g).Unmounted := by
  obtain ⟨hcurrent, hnodes⟩ := h.arrows g (List.mem_of_find?_eq_some hg)
  refine ⟨hcurrent, ?_, h.arrows⟩
  show UpTo 0 (p.nodes ++ g.nodes.toArray).toList
  rw [Array.toList_append]
  exact h.nodes.append hnodes

theorem remember (h : p.Unmounted) (start mark : Nat) : (p.remember start mark).Unmounted := by
  refine ⟨h.current, h.nodes, fun g hg => ?_⟩
  rcases List.mem_cons.mp hg with rfl | hg
  · exact ⟨h.current, extract_upTo h.nodes _ _⟩
  · exact h.arrows g hg

end Parser.Unmounted

/-- **No step of the parser makes a branch of a document.** -/
theorem unmounted_simulation : Simulation fun p q => p = q ∧ p.Unmounted where
  alike := by
    rintro p _ ⟨rfl, _⟩
    exact ⟨rfl, rfl, rfl, rfl, rfl, rfl, rfl, rfl, fun _ _ => rfl, rfl⟩
  check := by
    rintro p _ holds ⟨rfl, h⟩
    exact ⟨rfl, h.current, h.nodes, h.arrows⟩
  eat := by
    rintro p _ ⟨rfl, h⟩
    exact ⟨rfl, h.eat⟩
  rename := by
    rintro p _ - ⟨rfl, h⟩
    exact ⟨rfl, h.eatAs (withIdent_flat h.current)⟩
  branch := by
    rintro p _ mark k - ⟨rfl, h⟩
    exact ⟨rfl, h.wrap mark k⟩
  expected := by
    rintro p _ thing ⟨rfl, h⟩
    exact ⟨rfl, h.expected thing⟩
  unexpected := by
    rintro p _ ⟨rfl, h⟩
    exact ⟨rfl, h.unexpected⟩
  eatReserved := by
    rintro p _ ⟨rfl, h⟩
    exact ⟨rfl, h.eatReserved⟩
  closeAt := by
    rintro p _ mark k ⟨rfl, h⟩
    exact ⟨rfl, h.closeAt mark k⟩
  enter := by
    rintro p _ ⟨rfl, h⟩
    exact ⟨rfl, h.enter⟩
  leave := by
    rintro p _ ⟨rfl, h⟩
    exact ⟨rfl, h.current, h.nodes, h.arrows⟩
  rewind := by
    rintro p _ p' _ ⟨rfl, h⟩ ⟨rfl, h'⟩
    exact ⟨rfl, h'.current, extract_upTo h.nodes _ _, h.arrows⟩
  replay := by
    rintro p _ g g' ⟨rfl, h⟩ hg hg'
    obtain rfl := Option.some.inj (hg.symm.trans hg')
    exact ⟨rfl, h.replay hg⟩
  remember := by
    rintro p _ p' _ ⟨rfl, h⟩ ⟨rfl, _⟩
    exact ⟨rfl, h.remember _ _⟩

/-! ## Scripts -/

/-- The root over the nodes of a parser has no branch of a document in it. -/
theorem Parser.Unmounted.finish {p : Parser} (h : p.Unmounted) (k : ScriptKind) :
    (p.finish k).value.markupHeight ≤ 0 :=
  branchAt_script h.nodes k _

theorem readEntry_flat (src : Source) (s : Span) (entry : Entry) : (readEntry src s entry).value.markupHeight ≤ 0 := by
  have hstart := Parser.Unmounted.ofSpan src s
  have sim := unmounted_simulation
  cases entry with
  | statements => exact (eatRest_related sim (readScript_related sim ⟨rfl, hstart⟩)).2.finish _
  | expression => exact (eatRest_related sim (readSoleExpression_related sim ⟨rfl, hstart⟩)).2.finish _
  | attributes => exact (eatRest_related sim (readAttributes_related sim ⟨rfl, hstart⟩)).2.finish _

/-- **A script has no branch of a document in it**, whatever it is read as. -/
theorem readNamed_flat (src : Source) (s : Span) (entry : String) : (readNamed src s entry).value.markupHeight ≤ 0 := by
  unfold readNamed
  split
  · exact readEntry_flat src s _
  · exact Nat.le_refl 0

end ComponentMarkup.Script
