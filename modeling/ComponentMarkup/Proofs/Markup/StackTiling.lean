import ComponentMarkup.Markup.Inline
import ComponentMarkup.Proofs.Markup.HeadTiling

/-!
# The stack of parts tiles the text

While a region is read, its text stands on a stack of finished nodes and of delimiters that still wait for
their partner.  Taking a delimiter for the text it stands on, the parts of the stack are a run of nodes.
Closing a delimiter wraps what stands above it; degrading a command turns delimiters and the braces of
finished bodies back into text.  Neither loses anything.

A body can lose its braces again only if it is a branch; `Braced` says so, for a body and for the bodies
among its parts.

* `Stack.push`, `Stack.split`, `Stack.append` — stacks grown and taken apart;
* `Stack.settle` — the nodes that parts become cover what the parts covered;
* `Stack.finishCommand`, `Stack.degradeCommand` — the two ways a command ends.
-/

namespace ComponentMarkup.Markup

open ComponentMarkup.Text ComponentMarkup.Tree

variable {src : Source} {lo hi : Nat} {parts : List Part}

/-- Braced bodies are branches, and so are those among their parts. -/
inductive Braced : Node → Prop
  | other {node : Node} (kind_ne : node.isMarkup .contentBlock = false) : Braced node
  | block {span : Span} {host : Option Choice} {count : Nat} {faulty : Bool} {children : List Node}
      (parts : ∀ child ∈ children, Braced child) :
      Braced (.inner (.markup .contentBlock) span host count faulty children)

/-- A delimiter that stands on some text.  That of a command stands on the text of its head. -/
structure Delimiter.Sound (src : Source) (d : Delimiter) : Prop where
  lt : d.span.start < d.span.stop
  stop_le : d.span.stop ≤ src.size
  command : ∀ kind head, d.opener = .command kind head →
    kind ≠ .contentBlock ∧ Run src.Holds d.span.start d.span.stop head

/-- A part that can be closed, kept or degraded without losing text. -/
def Part.Sound (src : Source) : Part → Prop
  | .done node => Braced node
  | .waiting d => d.Sound src

/-- The nodes of parts, last first, in the order of the text. -/
def nodesOf (src : Source) (parts : List Part) : List Node :=
  parts.reverse.map (Part.node src)

/-- **The invariant of the stack.**  Its parts cover the text between two places. -/
structure Stack (src : Source) (lo hi : Nat) (parts : List Part) : Prop where
  run : Run src.Holds lo hi (nodesOf src parts)
  sound : ∀ part ∈ parts, part.Sound src

/-- The nodes of a part and of the parts below it. -/
theorem nodesOf_cons (part : Part) (parts : List Part) :
    nodesOf src (part :: parts) = nodesOf src parts ++ [part.node src] := by
  simp only [nodesOf, List.reverse_cons, List.map_append, List.map_cons, List.map_nil]

/-- The nodes of parts above others. -/
theorem nodesOf_append (above below : List Part) :
    nodesOf src (above ++ below) = nodesOf src below ++ nodesOf src above := by
  simp only [nodesOf, List.reverse_append, List.map_append]

/-- A document branch of another kind is no body. -/
theorem Braced.markup {kind : MarkupKind} {children : List Node} (h : kind ≠ .contentBlock) :
    Braced (.markup kind children) := by
  refine .other ?_
  show ((Kind.markup kind == Kind.markup .contentBlock) = false)
  rw [beq_eq_false_iff_ne]
  exact fun heq => h (Kind.markup.inj heq)

/-- A document leaf of another kind is no body. -/
theorem Braced.leafOf {kind : MarkupKind} {a b : Nat} (h : kind ≠ .contentBlock) :
    Braced (leafOf src kind a b) := by
  refine .other ?_
  show ((Kind.markup kind == Kind.markup .contentBlock) = false)
  rw [beq_eq_false_iff_ne]
  exact fun heq => h (Kind.markup.inj heq)

/-- The node of a part that is sound. -/
theorem Part.Sound.braced {part : Part} (h : part.Sound src) : Braced (part.node src) := by
  cases part with
  | done node => exact h
  | waiting d => exact Braced.leafOf (by decide)

namespace Stack

theorem nil (a : Nat) : Stack src a a [] :=
  ⟨Run.nil a, fun _ h => absurd h List.not_mem_nil⟩

theorem push {mid : Nat} {part : Part} (h : Stack src lo mid parts)
    (hrun : Run src.Holds mid hi [part.node src]) (hpart : part.Sound src) :
    Stack src lo hi (part :: parts) := by
  refine ⟨?_, ?_⟩
  · rw [nodesOf_cons]
    exact h.run.append hrun
  · intro other hother
    rcases List.mem_cons.mp hother with rfl | hother
    · exact hpart
    · exact h.sound other hother

theorem pushDone {mid : Nat} {node : Node} (h : Stack src lo mid parts)
    (hrun : Run src.Holds mid hi [node]) (hbraced : Braced node) :
    Stack src lo hi (.done node :: parts) :=
  h.push hrun hbraced

theorem pushWaiting {d : Delimiter} (h : Stack src lo d.span.start parts) (hd : d.Sound src) :
    Stack src lo d.span.stop (.waiting d :: parts) :=
  h.push (leafOf_run (Nat.le_of_lt hd.lt) hd.stop_le) hd

theorem append {mid : Nat} {above below : List Part} (hbelow : Stack src lo mid below)
    (habove : Stack src mid hi above) : Stack src lo hi (above ++ below) := by
  refine ⟨?_, ?_⟩
  · rw [nodesOf_append]
    exact hbelow.run.append habove.run
  · intro part hpart
    rcases List.mem_append.mp hpart with hpart | hpart
    · exact habove.sound part hpart
    · exact hbelow.sound part hpart

theorem split {above below : List Part} {d : Delimiter}
    (h : Stack src lo hi (above ++ .waiting d :: below)) :
    d.Sound src ∧ Stack src lo d.span.start below ∧ Stack src d.span.stop hi above := by
  have hrun := h.run
  rw [nodesOf_append, nodesOf_cons] at hrun
  obtain ⟨stop, hfront, habove⟩ := hrun.split
  obtain ⟨start, hbelow, hd⟩ := hfront.split
  obtain ⟨rfl, _, hstop⟩ := hd.of_cons
  obtain rfl : d.span.stop = stop := hstop.chain
  have hmem : ∀ part ∈ below, part ∈ above ++ .waiting d :: below := fun part hpart =>
    List.mem_append_right _ (List.mem_cons_of_mem _ hpart)
  exact ⟨h.sound (.waiting d) (List.mem_append_right _ List.mem_cons_self),
    ⟨hbelow, fun part hpart => h.sound part (hmem part hpart)⟩,
    ⟨habove, fun part hpart => h.sound part (List.mem_append_left _ hpart)⟩⟩

/-- Parts that are replaced one by one still cover the text. -/
theorem flatMap {f : Part → List Part}
    (hf : ∀ part a b, Stack src a b [part] → Stack src a b (f part)) (h : Stack src lo hi parts) :
    Stack src lo hi (parts.flatMap f) := by
  induction parts generalizing hi with
  | nil => exact h
  | cons part parts ih =>
      have hrun := h.run
      rw [nodesOf_cons] at hrun
      obtain ⟨mid, hbelow, hpart⟩ := hrun.split
      have hrest := ih ⟨hbelow, fun p hp => h.sound p (List.mem_cons_of_mem _ hp)⟩
      have hone : Stack src mid hi [part] := by
        refine ⟨hpart, fun p hp => ?_⟩
        rw [List.mem_singleton.mp hp]
        exact h.sound part List.mem_cons_self
      exact hrest.append (hf part mid hi hone)

end Stack

/-! ## Parts as nodes -/

/-- Joining a text with the text behind it changes nothing about what is covered. -/
theorem joinText_run {node : Node} {nodes : List Node} {a b : Nat}
    (h : Run src.Holds a b (node :: nodes)) : Run src.Holds a b (joinText node nodes) := by
  unfold joinText
  split
  · split
    · rename_i t s t' s' rest htouch
      obtain ⟨rfl, hfirst, htail⟩ := h.of_cons
      obtain ⟨hstart, hsecond, hrest⟩ := htail.of_cons
      cases hfirst with
      | leaf hfirst =>
          cases hsecond with
          | leaf hsecond =>
              have hjoined : src.Holds ⟨s.start, s'.stop⟩ (t ++ t') := by
                refine Source.Holds.join src (b := s.stop) hfirst ?_
                rw [htouch]
                exact hsecond
              exact Run.cons (.leaf hjoined) hrest
    · exact h
  · exact h

/-- Joining texts makes no bodies. -/
theorem joinText_braced {node : Node} {nodes : List Node} (hnode : Braced node)
    (hnodes : ∀ n ∈ nodes, Braced n) : ∀ n ∈ joinText node nodes, Braced n := by
  have hall : ∀ n ∈ node :: nodes, Braced n := by
    intro n hn
    rcases List.mem_cons.mp hn with rfl | hn
    · exact hnode
    · exact hnodes n hn
  unfold joinText
  split
  · split
    · intro n hn
      rcases List.mem_cons.mp hn with rfl | hn
      · exact .other rfl
      · exact hnodes n (List.mem_cons_of_mem _ hn)
    · exact hall
  · exact hall

/-- Joining all texts that touch changes nothing about what is covered. -/
theorem joinAll_run {nodes : List Node} {a b : Nat} (h : Run src.Holds a b nodes) :
    Run src.Holds a b (nodes.foldr joinText []) := by
  induction nodes generalizing a with
  | nil => exact h
  | cons node nodes ih =>
      obtain ⟨rfl, hnode, htail⟩ := h.of_cons
      exact joinText_run (Run.cons hnode (ih htail))

/-- Joining all texts that touch makes no bodies. -/
theorem joinAll_braced {nodes : List Node} (h : ∀ n ∈ nodes, Braced n) :
    ∀ n ∈ nodes.foldr joinText [], Braced n := by
  induction nodes with
  | nil => exact h
  | cons node nodes ih =>
      exact joinText_braced (h node List.mem_cons_self)
        (ih fun n hn => h n (List.mem_cons_of_mem _ hn))

namespace Stack

/-- **The nodes that parts become cover what the parts covered**, delimiters without partner as text. -/
theorem settle (h : Stack src lo hi parts) : Run src.Holds lo hi (settle src parts) :=
  joinAll_run h.run

/-- The nodes that parts become can lose their braces. -/
theorem settle_braced (h : Stack src lo hi parts) : ∀ n ∈ Markup.settle src parts, Braced n := by
  refine joinAll_braced ?_
  intro n hn
  obtain ⟨part, hpart, rfl⟩ := List.mem_map.mp hn
  exact (h.sound part (List.mem_reverse.mp hpart)).braced

end Stack

/-! ## Looking for a delimiter -/

/-- The delimiter that is found stands between the parts above and below it. -/
theorem findWaiting?_spec {accept blocks : Opener → Bool} {above below : List Part} {d : Delimiter}
    (h : findWaiting? accept blocks parts = some (above, d, below)) :
    parts = above ++ .waiting d :: below ∧ accept d.opener = true := by
  induction parts generalizing above d below with
  | nil => exact absurd h (by simp [findWaiting?])
  | cons part parts ih =>
      cases part with
      | done node =>
          simp only [findWaiting?, Option.map_eq_some_iff] at h
          obtain ⟨⟨above', d', below'⟩, hfound, heq⟩ := h
          obtain ⟨rfl, rfl, rfl⟩ : .done node :: above' = above ∧ d' = d ∧ below' = below := by
            simpa using heq
          obtain ⟨rfl, haccept⟩ := ih hfound
          exact ⟨rfl, haccept⟩
      | waiting e =>
          simp only [findWaiting?] at h
          split at h
          · rename_i haccept
            obtain ⟨rfl, rfl, rfl⟩ : [] = above ∧ e = d ∧ parts = below := by simpa using h
            exact ⟨rfl, haccept⟩
          · split at h
            · exact absurd h (by simp)
            · obtain ⟨⟨above', d', below'⟩, hfound, heq⟩ := Option.map_eq_some_iff.mp h
              obtain ⟨rfl, rfl, rfl⟩ : .waiting e :: above' = above ∧ d' = d ∧ below' = below := by
                simpa using heq
              obtain ⟨rfl, haccept⟩ := ih hfound
              exact ⟨rfl, haccept⟩

/-- A stack, taken apart at the delimiter that is found. -/
theorem Stack.found {accept blocks : Opener → Bool} {above below : List Part} {d : Delimiter}
    (h : Stack src lo hi parts) (hfound : findWaiting? accept blocks parts = some (above, d, below)) :
    d.Sound src ∧ Stack src lo d.span.start below ∧ Stack src d.span.stop hi above := by
  obtain ⟨rfl, _⟩ := findWaiting?_spec hfound
  exact h.split

/-! ## Ends of commands -/

/-- A body that loses its braces keeps its text. -/
theorem unbrace_run {node : Node} (hfits : node.Fits src) (hbraced : Braced node)
    (hblock : node.isMarkup .contentBlock = true) :
    Run src.Holds node.start node.stop (unbrace node) ∧ ∀ n ∈ unbrace node, Braced n := by
  cases hbraced with
  | other hne => exact absurd hblock (by simp [hne])
  | @block span host count faulty children hparts =>
      cases hfits with
      | inner chain _ _ tiles =>
          refine ⟨⟨chain.congr ?_, ?_⟩, ?_⟩
          · simp only [unbrace, Node.children, List.map_map]
            refine List.map_congr_left fun child _ => ?_
            show Node.span (if _ then _ else _) = _
            split
            · exact Node.span_withKind _ _
            · rfl
          · intro n hn
            obtain ⟨child, hchild, rfl⟩ := List.mem_map.mp hn
            have htiles := tiles child hchild
            split
            · exact htiles.withKind
            · exact htiles
          · intro n hn
            obtain ⟨child, hchild, rfl⟩ := List.mem_map.mp hn
            split
            · refine .other ?_
              cases child <;> rfl
            · exact hparts child hchild

/-- Finished nodes, last first, as parts. -/
theorem Stack.ofNodes {nodes : List Node} (hrun : Run src.Holds lo hi nodes)
    (hbraced : ∀ n ∈ nodes, Braced n) : Stack src lo hi (nodes.reverse.map .done) := by
  refine ⟨?_, ?_⟩
  · have hnodes : nodesOf src (nodes.reverse.map .done) = nodes := by
      simp only [nodesOf, ← List.map_reverse, List.reverse_reverse, List.map_map]
      exact List.map_id'' (fun _ => rfl) nodes
    rwa [hnodes]
  · intro part hpart
    obtain ⟨n, hn, rfl⟩ := List.mem_map.mp hpart
    exact hbraced n (List.mem_reverse.mp hn)

/-- A finished body without its braces, or another finished part as it is. -/
theorem Stack.unbraced {node : Node} (h : Stack src lo hi [.done node]) :
    Stack src lo hi (if node.isMarkup .contentBlock then (unbrace node).reverse.map .done
      else [.done node]) := by
  split
  · rename_i hblock
    have hbraced : Braced node := h.sound (.done node) List.mem_cons_self
    obtain ⟨rfl, hfits, hstop⟩ := Run.of_cons h.run
    obtain rfl : node.stop = hi := hstop.chain
    obtain ⟨hopened, hparts⟩ := unbrace_run hfits hbraced hblock
    exact Stack.ofNodes hopened hparts
  · exact h

/-- A delimiter that became text. -/
theorem Stack.pushText {d : Delimiter} (h : Stack src lo d.span.start parts) (hd : d.Sound src) :
    Stack src lo d.span.stop (.done (leafOf src .text d.span.start d.span.stop) :: parts) :=
  h.push (leafOf_run (Nat.le_of_lt hd.lt) hd.stop_le) (Braced.leafOf (by decide))

/-- A closed body covers its opening brace, its parts and whatever ends it. -/
theorem Stack.closeBody {mid : Nat} {above below : List Part} {d : Delimiter} {ends : List Node}
    (hd : d.Sound src) (hbelow : Stack src lo d.span.start below)
    (habove : Stack src d.span.stop mid above) (hends : Run src.Holds mid hi ends)
    (hbraced : ∀ n ∈ ends, Braced n) :
    Stack src lo hi (.done (.markup .contentBlock (leafOf src .leftBrace d.span.start d.span.stop ::
      Markup.settle src above ++ ends)) :: below) := by
  have hopen : Run src.Holds d.span.start d.span.stop
      [leafOf src .leftBrace d.span.start d.span.stop] :=
    leafOf_run (Nat.le_of_lt hd.lt) hd.stop_le
  have hrun := markup_run .contentBlock ((hopen.append habove.settle).append hends)
    (List.cons_ne_nil _ _)
  refine hbelow.pushDone hrun (.block ?_)
  intro child hchild
  rcases List.mem_cons.mp hchild with rfl | hchild
  · exact Braced.leafOf (by decide)
  · rcases List.mem_append.mp hchild with hchild | hchild
    · exact habove.settle_braced child hchild
    · exact hbraced child hchild

/-- Finishing a command moves nowhere. -/
theorem finishCommand_place (src : Source) (s : State) :
    (s.finishCommand src).place = s.place ∧ (s.finishCommand src).segments = s.segments := by
  unfold State.finishCommand
  split <;> exact ⟨rfl, rfl⟩

/-- A finished command covers its head and its bodies. -/
theorem Stack.finishCommand {s : State} (h : Stack src lo hi s.parts) :
    Stack src lo hi (s.finishCommand src).parts := by
  unfold State.finishCommand
  split
  · rename_i above kind head span level below hfound
    obtain ⟨hd, hbelow, habove⟩ := h.found hfound
    obtain ⟨hkind, hhead⟩ := hd.command kind head rfl
    have hall := hhead.append habove.settle
    have hne : head ++ Markup.settle src above ≠ [] := by
      intro hnil
      exact hhead.ne_nil hd.lt (List.append_eq_nil_iff.mp hnil).1
    exact hbelow.push (markup_run kind hall hne) (Braced.markup hkind)
  · exact h

/-- A degraded command is text up to its last body; the bodies before lose their braces. -/
theorem Stack.degradeCommand {s : State} (h : Stack src lo hi s.parts) :
    Stack src lo hi (s.degradeCommand src).parts := by
  unfold State.degradeCommand
  split
  · exact h
  · rename_i above body below hbody
    split
    · exact h
    · rename_i between command rest hcommand
      obtain ⟨hd, hbelow, habove⟩ := h.found hbody
      obtain ⟨hc, hrest, hbetween⟩ := hbelow.found hcommand
      refine (hrest.pushText hc).append ((Stack.pushText ?_ hd).append habove)
      refine Stack.flatMap (fun part a b hpart => ?_) hbetween
      cases part with
      | waiting d => exact hpart
      | done node => exact hpart.unbraced

end ComponentMarkup.Markup
