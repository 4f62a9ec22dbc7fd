import ComponentMarkup.Markup.Nesting

/-!
# Commands leave no trace in a nesting

A nesting follows the tokens of a region and the commands that are completed there.  Whatever a command holds, once it
is complete the frames around the place are those from before its introducer, not only equal to them but the same: no
frame that was there is made anew.  Inside a group of a command the nesting knows at every place whether a closing
bracket would end the group, which it does where all literal brackets of its kind that were opened are closed again.

* `Action`, `Nesting.run` — what a nesting goes through, and the nesting after it;
* `Word` — the actions of a command, of its groups and of the body of a group, nested in each other;
* `Word.effect` — what each of them does to a nesting;
* `Within` — the words that lead to a place inside a group, `Within.inGroup` — the frames there;
* `commands_neutral` — commands are neutral, and groups end where their brackets are matched.
-/

namespace ComponentMarkup.Markup

open ComponentMarkup.Text

/-! ## Words of actions -/

/-- What a nesting goes through. -/
inductive Action where
  /-- A token is read. -/
  | token (event : Event)
  /-- A command is complete. -/
  | completed
  deriving DecidableEq

/-- The nesting after an action. -/
def Nesting.after (n : Nesting) : Action → Nesting
  | .token event => n.shift event
  | .completed => n.completeCommand

/-- The nesting after several actions. -/
def Nesting.run (n : Nesting) (word : List Action) : Nesting :=
  word.foldl Nesting.after n

/-- What a word of actions belongs to. -/
inductive Shape where
  /-- A whole command. -/
  | command
  /-- The groups of a command. -/
  | groups
  /-- The start of the body of a group, up to a place where so many literal brackets of its kind are open. -/
  | body (bracket : Bracket) (count : Nat)

/-- The actions of a command, of its groups and of the body of a group.

A command is an introducer with its groups, the last of which may be left open when the command is completed.  In the
body of a group may stand whole commands, line ends and other tokens, brackets of other kinds in any order, and
brackets of its own kind, where one that closes has one that is open before it. -/
inductive Word : Shape → List Action → Prop where
  | command {groups : List Action} (inside : Word .groups groups) :
      Word .command (.token .introducer :: groups ++ [.completed])
  | cutShort {groups body : List Action} {b : Bracket} {count : Nat} (inside : Word .groups groups)
      (last : Word (.body b count) body) :
      Word .command (.token .introducer :: groups ++ .token (.opening b) :: body ++ [.completed])
  | noGroup : Word .groups []
  | group {groups body : List Action} {b : Bracket} {count : Nat} (earlier : Word .groups groups)
      (last : Word (.body b count) body) :
      Word .groups (groups ++ .token (.opening b) :: body ++ [.token (.closing b)])
  | start (b : Bracket) : Word (.body b 0) []
  | other {body : List Action} {b : Bracket} {count : Nat} (before : Word (.body b count) body) :
      Word (.body b count) (body ++ [.token .other])
  | newline {body : List Action} {b : Bracket} {count : Nat} (before : Word (.body b count) body) :
      Word (.body b count) (body ++ [.token .newline])
  | opening {body : List Action} {b : Bracket} {count : Nat} (before : Word (.body b count) body) :
      Word (.body b (count + 1)) (body ++ [.token (.opening b)])
  | closing {body : List Action} {b : Bracket} {count : Nat} (before : Word (.body b (count + 1)) body) :
      Word (.body b count) (body ++ [.token (.closing b)])
  | otherOpening {body : List Action} {b c : Bracket} {count : Nat} (before : Word (.body b count) body) (hc : c ≠ b) :
      Word (.body b count) (body ++ [.token (.opening c)])
  | otherClosing {body : List Action} {b c : Bracket} {count : Nat} (before : Word (.body b count) body) (hc : c ≠ b) :
      Word (.body b count) (body ++ [.token (.closing c)])
  | nested {body inner : List Action} {b : Bracket} {count : Nat} (before : Word (.body b count) body)
      (whole : Word .command inner) : Word (.body b count) (body ++ inner)

/-- Groups that are all closed: where one of them ends, no literal bracket of its kind is open in it.  Otherwise the
bracket at its end would close a literal one, and the group would go on. -/
inductive Closed : List Action → Prop where
  | none : Closed []
  | group {groups body : List Action} {b : Bracket} (earlier : Closed groups) (last : Word (.body b 0) body) :
      Closed (groups ++ .token (.opening b) :: body ++ [.token (.closing b)])

/-- A word that leads to a place inside a group of a kind where so many literal brackets of this kind are open.  The
group belongs to the command that the word starts with or to one in the body of a group of this command. -/
inductive Within : Bracket → Nat → List Action → Prop where
  | here {groups body : List Action} {b : Bracket} {count : Nat} (earlier : Closed groups)
      (before : Word (.body b count) body) :
      Within b count (.token .introducer :: groups ++ .token (.opening b) :: body)
  | deeper {groups body inner : List Action} {b c : Bracket} {count outer : Nat} (earlier : Closed groups)
      (before : Word (.body c outer) body) (inside : Within b count inner) :
      Within b count (.token .introducer :: groups ++ .token (.opening c) :: body ++ inner)

variable {n : Nesting} {word word' : List Action} {b c : Bracket} {count : Nat} {head : Frame} {outer : List Frame}

/-! ## Counted brackets -/

namespace Pending

@[simp] theorem get_set (p : Pending) (b : Bracket) (count : Nat) : (p.set b count).get b = count := by
  cases b <;> rfl

theorem get_set_of_ne (p : Pending) (hc : c ≠ b) (count : Nat) : (p.set c count).get b = p.get b := by
  cases b <;> cases c <;> first | rfl | exact absurd rfl hc

end Pending

namespace Nesting

@[simp] theorem run_cons (n : Nesting) (action : Action) (word : List Action) :
    n.run (action :: word) = (n.after action).run word :=
  rfl

@[simp] theorem run_append (n : Nesting) (word word' : List Action) : n.run (word ++ word') = (n.run word).run word' :=
  List.foldl_append

/-! ## Places in a command -/

/-- Between the groups of a command: its head is the innermost frame. -/
structure AtHead (n : Nesting) (head : Frame) (outer : List Frame) : Prop where
  frames : n.frames = head :: outer
  form : head.form = .head

/-- Somewhere in a command: inside its head there are only bodies. -/
structure Above (n : Nesting) (head : Frame) (outer : List Frame) : Prop where
  frames : ∃ bodies, n.frames = bodies ++ head :: outer ∧ ∀ frame ∈ bodies, frame.form ≠ .head
  form : head.form = .head

/-- Directly in a group of a kind, with so many literal brackets of this kind open. -/
def InGroup (n : Nesting) (b : Bracket) (count : Nat) (outer : List Frame) : Prop :=
  ∃ frame pending, n.frames = frame :: outer ∧ frame.form = .body b pending ∧ pending.get b = count

/-- An introducer puts the head of a command inside the frames there are. -/
theorem atHead_introducer (n : Nesting) : (n.shift .introducer).AtHead ⟨n.supply, .head⟩ n.frames :=
  ⟨rfl, rfl⟩

theorem AtHead.above (h : n.AtHead head outer) : n.Above head outer :=
  ⟨⟨[], h.frames, fun _ hframe => absurd hframe List.not_mem_nil⟩, h.form⟩

/-- An opening bracket after the head of a command starts a group. -/
theorem AtHead.opening (h : n.AtHead head outer) (b : Bracket) :
    (n.shift (.opening b)).InGroup b 0 (head :: outer) := by
  have hform : n.form? = some .head := by
    rw [form?, h.frames, List.head?_cons, Option.map_some, h.form]
  refine ⟨⟨n.supply, .body b {}⟩, {}, ?_, rfl, ?_⟩
  · simp [shift, shiftFrames, hform, push, h.frames]
  · cases b <;> rfl

/-! ## A group and its literal brackets -/

namespace InGroup

/-- **A group ends at a closing bracket of its kind** where no literal bracket of this kind is open. -/
theorem closes_iff (h : n.InGroup b count outer) (c : Bracket) : n.closes c = true ↔ c = b ∧ count = 0 := by
  obtain ⟨frame, pending, hframes, hform, rfl⟩ := h
  have hcloses : n.closes c = (decide (b = c) && decide (pending.get c = 0)) := by
    simp [closes, form?, hframes, hform]
  rw [hcloses, Bool.and_eq_true, decide_eq_true_iff, decide_eq_true_iff]
  constructor
  · intro ⟨hbracket, hzero⟩
    subst hbracket
    exact ⟨rfl, hzero⟩
  · intro ⟨hbracket, hzero⟩
    subst hbracket
    exact ⟨rfl, hzero⟩

theorem congr {n' : Nesting} (h : n.InGroup b count outer) (hframes : n'.frames = n.frames) :
    n'.InGroup b count outer := by
  obtain ⟨frame, pending, hbody, hform, hcount⟩ := h
  exact ⟨frame, pending, hframes.trans hbody, hform, hcount⟩

/-- A literal bracket of the same kind that is opened is one more open bracket. -/
theorem opening (h : n.InGroup b count outer) : (n.shift (.opening b)).InGroup b (count + 1) outer := by
  obtain ⟨frame, pending, hframes, hform, rfl⟩ := h
  refine ⟨⟨n.supply, .body b (pending.set b (pending.get b + 1))⟩, _, ?_, rfl, Pending.get_set pending b _⟩
  simp [shift, shiftFrames, form?, replace, hframes, hform]

/-- A bracket of another kind that is opened is counted elsewhere. -/
theorem otherOpening (h : n.InGroup b count outer) (hc : c ≠ b) : (n.shift (.opening c)).InGroup b count outer := by
  obtain ⟨frame, pending, hframes, hform, rfl⟩ := h
  refine ⟨⟨n.supply, .body b (pending.set c (pending.get c + 1))⟩, _, ?_, rfl, Pending.get_set_of_ne pending hc _⟩
  simp [shift, shiftFrames, form?, replace, hframes, hform]

/-- A closing bracket of another kind leaves the group as it is, whether it is counted or not. -/
theorem otherClosing (h : n.InGroup b count outer) (hc : c ≠ b) : (n.shift (.closing c)).InGroup b count outer := by
  obtain ⟨frame, pending, hframes, hform, rfl⟩ := h
  by_cases hopen : 0 < pending.get c
  · refine ⟨⟨n.supply, .body b (pending.set c (pending.get c - 1))⟩, _, ?_, rfl, Pending.get_set_of_ne pending hc _⟩
    simp [shift, shiftFrames, form?, replace, hframes, hform, hopen]
  · refine ⟨frame, pending, ?_, hform, rfl⟩
    simp [shift, shiftFrames, form?, hframes, hform, hopen, hc]

/-- A closing bracket of the same kind closes a literal bracket, if one is open. -/
theorem closing (h : n.InGroup b (count + 1) outer) : (n.shift (.closing b)).InGroup b count outer := by
  obtain ⟨frame, pending, hframes, hform, hcount⟩ := h
  refine ⟨⟨n.supply, .body b (pending.set b count)⟩, _, ?_, rfl, Pending.get_set pending b count⟩
  simp [shift, shiftFrames, form?, replace, hframes, hform, hcount]

/-- Otherwise it ends the group. -/
theorem ended (h : n.InGroup b 0 outer) : (n.shift (.closing b)).frames = outer := by
  obtain ⟨frame, pending, hframes, hform, hcount⟩ := h
  simp [shift, shiftFrames, form?, pop, hframes, hform, hcount]

end InGroup

/-! ## The head of a command -/

namespace Above

theorem congr {n' : Nesting} (h : n.Above head outer) (hframes : n'.frames = n.frames) : n'.Above head outer := by
  obtain ⟨bodies, hbodies, hforms⟩ := h.frames
  exact ⟨⟨bodies, hframes.trans hbodies, hforms⟩, h.form⟩

/-- A frame of a body more does not bury the head. -/
theorem push {pending : Pending} (h : n.Above head outer) (b : Bracket) :
    (n.push (.body b pending)).Above head outer := by
  obtain ⟨bodies, hbodies, hforms⟩ := h.frames
  refine ⟨⟨⟨n.supply, .body b pending⟩ :: bodies, congrArg (List.cons _) hbodies, ?_⟩, h.form⟩
  intro frame hframe
  rcases List.mem_cons.mp hframe with rfl | hframe
  · exact FrameForm.noConfusion
  · exact hforms frame hframe

/-- The head is not taken away with the frame of a body. -/
theorem pop {opener : Bracket} {pending : Pending} (h : n.Above head outer)
    (hform : n.form? = some (.body opener pending)) : n.pop.Above head outer := by
  obtain ⟨bodies, hbodies, hforms⟩ := h.frames
  cases bodies with
  | nil =>
      rw [form?, hbodies, List.nil_append, List.head?_cons, Option.map_some, h.form] at hform
      exact FrameForm.noConfusion (Option.some.inj hform)
  | cons body bodies =>
      refine ⟨⟨bodies, ?_, fun frame hframe => hforms frame (List.mem_cons_of_mem body hframe)⟩, h.form⟩
      rw [Nesting.pop, hbodies]
      rfl

/-- Counting the brackets of a body anew does not touch the head. -/
theorem replace {opener : Bracket} {pending pending' : Pending} (h : n.Above head outer)
    (hform : n.form? = some (.body opener pending)) : (n.replace (.body opener pending')).Above head outer :=
  ((h.pop hform).push opener).congr rfl

/-- **No bracket takes the head of a command away**, nor does any other token that is no introducer. -/
theorem shift {event : Event} (h : n.Above head outer) (hevent : event ≠ .introducer) :
    (n.shift event).Above head outer := by
  have hframes : (n.shiftFrames event).Above head outer := by
    cases event with
    | introducer => exact absurd rfl hevent
    | newline => exact h
    | other => exact h
    | opening b =>
        rw [shiftFrames]
        split
        · exact h.push b
        · rename_i hform
          exact h.replace hform
        · exact h
    | closing b =>
        rw [shiftFrames]
        split
        · rename_i hform
          split
          · exact h.replace hform
          · split
            · exact h.pop hform
            · exact h
        · exact h
  exact hframes.congr rfl

/-- **What is outside the head remains** when the command is complete, whatever is open inside it. -/
theorem completeCommand (h : n.Above head outer) : n.completeCommand.frames = outer := by
  obtain ⟨bodies, hbodies, hforms⟩ := h.frames
  have houtside : outsideCommand (bodies ++ head :: outer) = outer := by
    clear hbodies
    induction bodies with
    | nil => rw [List.nil_append, outsideCommand, if_pos h.form]
    | cons body bodies ih =>
        rw [List.cons_append, outsideCommand, if_neg (hforms body List.mem_cons_self)]
        exact ih fun frame hframe => hforms frame (List.mem_cons_of_mem body hframe)
  exact (congrArg outsideCommand hbodies).trans houtside

end Above

/-! ## What words do to a nesting -/

/-- A word after which all frames are those from before it. -/
def Neutral (word : List Action) : Prop :=
  ∀ n : Nesting, (n.run word).frames = n.frames

/-- A word that leaves the head of the command around it in its place. -/
def KeepsHead (word : List Action) : Prop :=
  ∀ (n : Nesting) (head : Frame) (outer : List Frame), n.Above head outer → (n.run word).Above head outer

/-- A word that stays in the group around it and opens so many literal brackets of its kind. -/
def StaysIn (b : Bracket) (count : Nat) (word : List Action) : Prop :=
  ∀ (n : Nesting) (open' : Nat) (outer : List Frame), n.InGroup b open' outer →
    (n.run word).InGroup b (open' + count) outer

theorem KeepsHead.append (h : KeepsHead word) (h' : KeepsHead word') : KeepsHead (word ++ word') := by
  intro n head outer habove
  rw [run_append]
  exact h' _ head outer (h n head outer habove)

theorem KeepsHead.token {event : Event} (hevent : event ≠ .introducer) : KeepsHead [.token event] := by
  intro n head outer habove
  exact habove.shift hevent

theorem Neutral.keepsHead (h : Neutral word) : KeepsHead word := by
  intro n head outer habove
  exact habove.congr (h n)

theorem KeepsHead.opened (h : KeepsHead word) (h' : KeepsHead word') :
    KeepsHead (word ++ .token (.opening b) :: word') := by
  have hopening : KeepsHead [.token (.opening b)] := .token Event.noConfusion
  exact h.append (hopening.append h')

/-- The head of a command and all that is inside it are gone when the command is complete. -/
theorem KeepsHead.command (h : KeepsHead word) : Neutral (.token .introducer :: word ++ [.completed]) := by
  intro n
  rw [List.cons_append, run_cons, run_append]
  exact (h _ _ _ (atHead_introducer n).above).completeCommand

end Nesting

open Nesting

/-- The effect of a word by what it belongs to.  A command leaves no trace; its groups keep its head; the body of a
group does so too and stays in the group. -/
def Shape.Effect : Shape → List Action → Prop
  | .command, word => Neutral word
  | .groups, word => KeepsHead word
  | .body b count, word => KeepsHead word ∧ StaysIn b count word

/-- One more token in a body that does not leave it. -/
theorem Shape.Effect.token {event : Event} {count' : Nat} (h : (Shape.body b count).Effect word)
    (hevent : event ≠ .introducer) (hstays : ∀ {n : Nesting} {before : Nat} {outer : List Frame},
      n.InGroup b (before + count) outer → (n.shift event).InGroup b (before + count') outer) :
    (Shape.body b count').Effect (word ++ [.token event]) := by
  refine ⟨h.1.append (.token hevent), ?_⟩
  intro n before outer hgroup
  rw [run_append]
  exact hstays (h.2 n before outer hgroup)

/-- **What words do to a nesting**, by induction on how they are nested in each other. -/
theorem Word.effect {shape : Shape} (h : Word shape word) : shape.Effect word := by
  induction h with
  | command _ ih => exact ih.command
  | cutShort _ _ ihgroups ihbody => exact (ihgroups.opened ihbody.1).command
  | noGroup =>
      intro n head outer habove
      exact habove
  | group _ _ ihgroups ihbody => exact (ihgroups.opened ihbody.1).append (.token Event.noConfusion)
  | start b =>
      constructor
      · intro n head outer habove
        exact habove
      · intro n before outer hgroup
        exact hgroup
  | other _ ih => exact ih.token Event.noConfusion fun hgroup => hgroup.congr rfl
  | newline _ ih => exact ih.token Event.noConfusion fun hgroup => hgroup.congr rfl
  | opening _ ih => exact ih.token Event.noConfusion InGroup.opening
  | closing _ ih => exact ih.token Event.noConfusion InGroup.closing
  | otherOpening _ hc ih => exact ih.token Event.noConfusion fun hgroup => hgroup.otherOpening hc
  | otherClosing _ hc ih => exact ih.token Event.noConfusion fun hgroup => hgroup.otherClosing hc
  | nested _ _ ih ihinner =>
      refine ⟨ih.1.append ihinner.keepsHead, ?_⟩
      intro n before outer hgroup
      rw [run_append]
      exact (ih.2 n before outer hgroup).congr (ihinner _)

/-! ## Places inside groups -/

theorem Closed.groups (h : Closed word) : Word .groups word := by
  induction h with
  | none => exact .noGroup
  | group _ last ih => exact .group ih last

/-- After groups that are closed the head of the command is the innermost frame again. -/
theorem Closed.atHead (h : Closed word) (hhead : n.AtHead head outer) : (n.run word).AtHead head outer := by
  induction h with
  | none => exact hhead
  | group _ last ih =>
      rw [List.append_assoc, run_append, List.cons_append, run_cons, run_append]
      have hgroup := last.effect.2 _ 0 _ (ih.opening _)
      exact ⟨hgroup.ended, hhead.form⟩

/-- A word that leads into a group is the start of a command. -/
theorem Within.command (h : Within b count word) : ∃ rest, Word .command (word ++ rest) := by
  induction h with
  | here earlier before => exact ⟨[.completed], .cutShort earlier.groups before⟩
  | deeper earlier before _ ih =>
      obtain ⟨rest, hinner⟩ := ih
      refine ⟨rest ++ [.completed], ?_⟩
      have houter := Word.cutShort earlier.groups (before.nested hinner)
      simpa only [List.append_assoc, List.cons_append] using houter

/-- **The place a word leads to** is directly in its group, with the literal brackets open that it left open. -/
theorem Within.inGroup (h : Within b count word) (n : Nesting) : ∃ outer, (n.run word).InGroup b count outer := by
  induction h generalizing n with
  | @here groups _ b _ earlier before =>
      have hhead := earlier.atHead n.atHead_introducer
      have hgroup := before.effect.2 _ 0 _ (hhead.opening b)
      rw [Nat.zero_add] at hgroup
      rw [run_append]
      exact ⟨_, hgroup⟩
  | deeper _ _ _ ih =>
      rw [run_append]
      exact ih _

end ComponentMarkup.Markup
