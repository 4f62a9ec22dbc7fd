import ComponentMarkup.Proofs.Script.Precedence

/-!
# Brackets of scripts

An opening bracket of a script that nothing closes becomes a fault.  Brackets stand in the branch of what they belong
to, beside what they hold, so nothing else in the branch has brackets of its own, and whether one is closed is told by
the nodes behind it.

* `closes` — whether a bracket is closed by one of the nodes behind it;
* `Opened` — a branch whose unclosed brackets are brackets of its own that nothing closes;
* `Orderly` — a node that is no bracket, with such branches only;
* `Contents`, `BracketRun` — what a branch may have in it: nodes among which there are brackets, closed or not;
* `Contents.branchAt` — a branch over what it may have in it is orderly.
-/

namespace ComponentMarkup.Tree

/-- Whether a node is a fault with a message. -/
def Node.says (n : Node) (message : String) : Bool :=
  match n with
  | .fault m _ _ _ => m == message
  | _ => false

end ComponentMarkup.Tree

namespace ComponentMarkup.Text.Bracket

open ComponentMarkup.Tree

/-- The kind of the token that opens a bracket. -/
def opening : Bracket → ScriptKind
  | brace => .leftBrace
  | square => .leftBracket
  | paren => .leftParen

/-- The kind of the token that closes a bracket. -/
def closing : Bracket → ScriptKind
  | brace => .rightBrace
  | square => .rightBracket
  | paren => .rightParen

/-- What an opening bracket looks like. -/
def openingText : Bracket → String
  | brace => "\x7b"
  | square => "["
  | paren => "("

theorem opening_ne_closing (b b' : Bracket) : b.opening ≠ b'.closing := by
  cases b <;> cases b' <;> decide

end ComponentMarkup.Text.Bracket

namespace ComponentMarkup.Script

open ComponentMarkup.Text ComponentMarkup.Tree

variable {deep deep' bare : Prop} {b : Bracket} {ns ms : List Node} {n f : Node} {k : ScriptKind}

/-! ## What brackets have to be -/

/-- What a fault says that was an opening bracket. -/
def unclosedMessage : String := "unclosed delimiter"

/-- Whether a bracket is closed among the nodes behind it, `depth` others of its kind being open there. -/
def closes (b : Bracket) : (depth : Nat) → List Node → Bool
  | _, [] => false
  | depth, n :: ns =>
    if n.isScript b.opening then closes b (depth + 1) ns
    else if n.isScript b.closing then depth == 0 || closes b (depth - 1) ns
    else closes b depth ns

/-- The bracket that is opened and closed by children of a branch.  Blocks, groups and lists have nothing else, for
others it is a part. -/
def bracketOf? : ScriptKind → Option Bracket
  | .paren | .args | .params | .ifStmt | .forStmt | .whileStmt => some .paren
  | .array | .index | .property => some .square
  | .block | .object | .importDecl | .exportDecl => some .brace
  | _ => none

/-- Whether a text is white space or a comment. -/
def isIdle (text : String) : Bool :=
  let cs := text.toList
  !cs.isEmpty && (cs.all isWhitespace || cs.take 2 == ['/', '/'] || cs.take 2 == ['/', '*'])

/-- **A branch whose unclosed brackets are unclosed.**  A fault among its children that says so is an opening bracket
of the branch, and unless the rest of the script was taken as it is, no node behind it closes it.  White space and
comments say so only where a loop is bare. -/
def Opened (deep bare : Prop) (n : Node) : Prop :=
  ∀ before f after, n.children = before ++ f :: after → f.says unclosedMessage = true →
    isIdle f.text = true ∧ bare ∨
      ∃ k b, n.kind = .script k ∧ bracketOf? k = some b ∧ f.text = b.openingText ∧ (¬ deep → closes b 0 after = false)

theorem Opened.mono (h : Opened deep bare n) (himp : deep → deep') : Opened deep' bare n := by
  intro before f after hchildren hsays
  refine (h before f after hchildren hsays).imp_right ?_
  rintro ⟨k, b, hkind, hk, htext, hopen⟩
  exact ⟨k, b, hkind, hk, htext, fun hno => hopen (mt himp hno)⟩

/-- Where only white space and comments say so, there is nothing to show. -/
theorem Opened.silent (h : ∀ c ∈ n.children, c.says unclosedMessage = true → isIdle c.text = true ∧ bare) :
    Opened deep bare n :=
  fun _ f _ hchildren hsays => .inl (h f (hchildren ▸ List.mem_append_right _ List.mem_cons_self) hsays)

/-! ## What closes brackets -/

/-- Nodes that are no brackets of a kind close none. -/
theorem closes_plain (h : ∀ n ∈ ns, n.isScript b.opening = false ∧ n.isScript b.closing = false) (depth : Nat)
    (rest : List Node) : closes b depth (ns ++ rest) = closes b depth rest := by
  induction ns with
  | nil => rfl
  | cons n ns ih =>
      obtain ⟨hopening, hclosing⟩ := h n List.mem_cons_self
      rw [List.cons_append, closes, hopening, hclosing]
      exact ih fun m hm => h m (List.mem_cons_of_mem n hm)

/-- Nodes that leave all brackets as they are may be left out at the end. -/
theorem closes_append (h : ∀ depth rest, closes b depth (ms ++ rest) = closes b depth rest) (depth : Nat)
    (ns : List Node) : closes b depth (ns ++ ms) = closes b depth ns := by
  induction ns generalizing depth with
  | nil =>
      have hend := h depth []
      rwa [List.append_nil] at hend
  | cons n ns ih =>
      rw [List.cons_append, closes, closes, ih (depth + 1), ih (depth - 1), ih depth]

theorem isScript_kind {l : ScriptKind} (h : n.isScript k = true) : n.isScript l = (k == l) := by
  unfold Node.isScript at h ⊢
  rw [eq_of_beq h]
  exact Bool.eq_iff_iff.mpr ⟨fun h => beq_iff_eq.mpr (Kind.script.inj (eq_of_beq h)), fun h =>
    beq_iff_eq.mpr (congrArg Kind.script (eq_of_beq h))⟩

/-- A bracket that is closed leaves the others as they are. -/
theorem closes_pair {o c : Node} (ho : o.isScript b.opening = true) (hc : c.isScript b.closing = true)
    (h : ∀ n ∈ ns, n.isScript b.opening = false ∧ n.isScript b.closing = false) (depth : Nat) (rest : List Node) :
    closes b depth (o :: ns ++ [c] ++ rest) = closes b depth rest := by
  have hnot : c.isScript b.opening = false := by
    rw [isScript_kind hc]
    exact beq_eq_false_iff_ne.mpr (Bracket.opening_ne_closing b b).symm
  rw [List.append_assoc, List.cons_append, closes, ho, if_pos rfl, closes_plain h, List.singleton_append, closes, hnot,
    hc, if_neg Bool.false_ne_true, if_pos rfl]
  rfl

/-! ### Moving places -/

section MapPlaces

variable (g : Nat → Nat)

theorem isScript_mapPlaces (n : Node) (k : ScriptKind) : (n.mapPlaces g).isScript k = n.isScript k := by
  unfold Node.isScript
  rw [Node.kind_mapPlaces]

theorem closes_mapPlaces (b : Bracket) (depth : Nat) (ns : List Node) :
    closes b depth (ns.map (Node.mapPlaces g)) = closes b depth ns := by
  induction ns generalizing depth with
  | nil => rfl
  | cons n ns ih =>
      rw [List.map_cons, closes, closes, isScript_mapPlaces, isScript_mapPlaces, ih, ih, ih]

/-- Whether brackets are closed does not depend on where they stand. -/
theorem Opened.mapPlaces (h : Opened deep bare n) : Opened deep bare (n.mapPlaces g) := by
  intro before f after hchildren hsays
  rw [Node.children_mapPlaces] at hchildren
  obtain ⟨front, rest, hsplit, rfl, hrest⟩ := List.map_eq_append_iff.mp hchildren
  obtain ⟨f, after, rfl, rfl, rfl⟩ := List.map_eq_cons_iff.mp hrest
  have hsays' : f.says unclosedMessage = true := by
    cases f <;> exact hsays
  simp only [Node.text_mapPlaces, Node.kind_mapPlaces, closes_mapPlaces]
  exact h front f after hsplit hsays'

end MapPlaces

/-! ## Nodes without open brackets -/

/-- Kinds of tokens that are brackets. -/
def isBracket (k : ScriptKind) : Bool :=
  [Bracket.brace, .square, .paren].any fun b => k == b.opening || k == b.closing

/-- A node that holds only branches whose unclosed brackets are unclosed.  It does not say that it is one itself, unless
it is white space or a comment and a loop is bare. -/
structure Quiet (deep bare : Prop) (n : Node) : Prop where
  below : n.Throughout (Opened deep bare)
  silent : n.says unclosedMessage = true → isIdle n.text = true ∧ bare

/-- A quiet node that is no bracket, unless the rest of the script was taken as it is. -/
structure Orderly (deep bare : Prop) (n : Node) : Prop extends Quiet deep bare n where
  plain : ¬ deep → ∀ b : Bracket, n.isScript b.opening = false ∧ n.isScript b.closing = false

/-- What a branch of a kind may have in it.  The nodes that say that they are unclosed are brackets of the branch, and
no node behind them closes them. -/
structure Contents (deep bare : Prop) (k : ScriptKind) (ns : List Node) : Prop where
  below : ∀ n ∈ ns, n.Throughout (Opened deep bare)
  unclosed : ∀ before f after, ns = before ++ f :: after → f.says unclosedMessage = true →
    isIdle f.text = true ∧ bare ∨
      ∃ b, bracketOf? k = some b ∧ f.text = b.openingText ∧ (¬ deep → closes b 0 after = false)

/-- What a branch of a kind may have in it, with as many brackets of the kind closed as are opened. -/
structure BracketRun (deep bare : Prop) (k : ScriptKind) (ns : List Node) : Prop extends Contents deep bare k ns where
  level : ¬ deep → ∀ b, bracketOf? k = some b → ∀ depth rest, closes b depth (ns ++ rest) = closes b depth rest

theorem isBracket_eq_false (h : isBracket k = false) (b : Bracket) : k ≠ b.opening ∧ k ≠ b.closing := by
  unfold isBracket at h
  rw [List.any_eq_false] at h
  have hb := h b (by cases b <;> decide)
  rw [Bool.or_eq_true, not_or, beq_iff_eq, beq_iff_eq] at hb
  exact hb

/-- A node of another kind is no bracket. -/
theorem isScript_bracket (hn : n.kind = .script k) (hk : isBracket k = false) (b : Bracket) :
    n.isScript b.opening = false ∧ n.isScript b.closing = false := by
  obtain ⟨hopening, hclosing⟩ := isBracket_eq_false hk b
  unfold Node.isScript
  rw [hn]
  exact ⟨beq_eq_false_iff_ne.mpr fun h => hopening (Kind.script.inj h),
    beq_eq_false_iff_ne.mpr fun h => hclosing (Kind.script.inj h)⟩

/-- Nodes of a script kind are no faults. -/
theorem says_of_kind (hn : n.kind = .script k) (message : String) : n.says message = false := by
  cases n with
  | fault => exact Kind.noConfusion hn
  | _ => rfl

theorem children_branchAt (k : ScriptKind) (place : Nat) (ns : List Node) :
    (Node.branchAt (.script k) place ns).children = ns := by
  cases ns <;> rfl

namespace Quiet

theorem mono (h : Quiet deep bare n) (himp : deep → deep') : Quiet deep' bare n :=
  ⟨h.below.mono fun _ h => h.mono himp, h.silent⟩

/-- Nodes without children that do not say so. -/
theorem childless (hchildren : n.children = []) (h : n.says unclosedMessage = true → isIdle n.text = true ∧ bare) :
    Quiet deep bare n := by
  have hnone : ∀ c, c ∉ n.children := fun c hc => absurd (hchildren ▸ hc) List.not_mem_nil
  exact ⟨.intro (.silent fun c hc => absurd hc (hnone c)) fun c hc => absurd hc (hnone c), h⟩

end Quiet

namespace Orderly

theorem mono (h : Orderly deep bare n) (himp : deep → deep') : Orderly deep' bare n :=
  ⟨h.toQuiet.mono himp, fun hno => h.plain (mt himp hno)⟩

/-- Faults are no brackets. -/
theorem ofFault (h : Quiet deep bare n) (hn : n.isFault = true) : Orderly deep bare n := by
  have hkind : n.kind = .fault := eq_of_beq hn
  refine ⟨h, fun _ b => ?_⟩
  unfold Node.isScript
  rw [hkind]
  exact ⟨rfl, rfl⟩

/-- Faults that say something else, and those about white space and comments. -/
theorem fault {message text : String} {hints : List String} {s : Span}
    (h : message = unclosedMessage → isIdle text = true ∧ bare) : Orderly deep bare (.fault message hints text s) :=
  .ofFault (.childless rfl fun hsays => h (eq_of_beq hsays)) rfl

end Orderly

namespace Contents

theorem mono (h : Contents deep bare k ns) (himp : deep → deep') : Contents deep' bare k ns where
  below n hn := (h.below n hn).mono fun _ h => h.mono himp
  unclosed before f after hns hsays := (h.unclosed before f after hns hsays).imp_right
    fun ⟨b, hb, htext, hopen⟩ => ⟨b, hb, htext, fun hno => hopen (mt himp hno)⟩

/-- Nodes of which none says that it is unclosed. -/
theorem of_quiet (h : ∀ n ∈ ns, Quiet deep bare n) : Contents deep bare k ns where
  below n hn := (h n hn).below
  unclosed _ f _ hns hsays := .inl ((h f (hns ▸ List.mem_append_right _ List.mem_cons_self)).silent hsays)

/-- What stands before a bracket does not matter to it. -/
theorem prepend (h : Contents deep bare k ns) (hms : ∀ n ∈ ms, Quiet deep bare n) :
    Contents deep bare k (ms ++ ns) := by
  refine ⟨fun n hn => (List.mem_append.mp hn).elim (fun hn => (hms n hn).below) (h.below n),
    fun before f after heq hsays => ?_⟩
  rcases List.append_eq_append_iff.mp heq with ⟨more, rfl, hrest⟩ | ⟨more, rfl, hrest⟩
  · exact h.unclosed more f after hrest hsays
  · cases more with
    | nil => exact h.unclosed [] f after hrest.symm hsays
    | cons m more =>
        obtain ⟨rfl, rfl⟩ := List.cons.inj hrest
        exact .inl ((hms f (List.mem_append_right _ List.mem_cons_self)).silent hsays)

/-- Brackets that are all closed do not close those before them. -/
theorem append (h : Contents deep bare k ns) (h' : BracketRun deep bare k ms) : Contents deep bare k (ns ++ ms) := by
  refine ⟨fun n hn => (List.mem_append.mp hn).elim (h.below n) (h'.below n), fun before f after heq hsays => ?_⟩
  rcases List.append_eq_append_iff.mp heq with ⟨more, rfl, hrest⟩ | ⟨more, rfl, hrest⟩
  · exact h'.unclosed more f after hrest hsays
  · cases more with
    | nil => exact h'.unclosed [] f after hrest.symm hsays
    | cons m more =>
        obtain ⟨rfl, rfl⟩ := List.cons.inj hrest
        refine (h.unclosed before f more rfl hsays).imp_right fun ⟨b, hb, htext, hopen⟩ => ⟨b, hb, htext, fun hno => ?_⟩
        exact (closes_append (h'.level hno b hb) 0 more).trans (hopen hno)

/-- **The branch over what it may have in it is orderly.** -/
theorem branchAt (h : Contents deep bare k ns) (hk : isBracket k = false) (place : Nat) :
    Orderly deep bare (.branchAt (.script k) place ns) := by
  have hkind := kind_branchAt k place ns
  refine ⟨⟨.branchAt (fun before f after heq hsays => ?_) h.below, fun hsays => ?_⟩,
    fun _ => isScript_bracket hkind hk⟩
  · rw [children_branchAt] at heq
    exact (h.unclosed before f after heq hsays).imp_right fun ⟨b, hb, hopen⟩ => ⟨k, b, hkind, hb, hopen⟩
  · exact absurd ((says_of_kind hkind _).symm.trans hsays) Bool.noConfusion

end Contents

namespace BracketRun

theorem mono (h : BracketRun deep bare k ns) (himp : deep → deep') : BracketRun deep' bare k ns :=
  ⟨h.toContents.mono himp, fun hno => h.level (mt himp hno)⟩

/-- Nodes without brackets. -/
theorem of_orderly (h : ∀ n ∈ ns, Orderly deep bare n) : BracketRun deep bare k ns :=
  ⟨.of_quiet fun n hn => (h n hn).toQuiet, fun hno b _ => closes_plain fun n hn => (h n hn).plain hno b⟩

theorem append (h : BracketRun deep bare k ns) (h' : BracketRun deep bare k ms) : BracketRun deep bare k (ns ++ ms) :=
  ⟨h.toContents.append h', fun hno b hb depth rest => by
    rw [List.append_assoc, h.level hno b hb, h'.level hno b hb]⟩

/-- A bracket, what it holds and what closes it. -/
theorem closed {o c : Node} (hk : bracketOf? k = some b) (ho : o.isScript b.opening = true)
    (hc : c.isScript b.closing = true) (hquiet : ∀ n ∈ [o, c], Quiet deep bare n) (h : ∀ n ∈ ns, Orderly deep bare n) :
    BracketRun deep bare k (o :: ns ++ [c]) := by
  refine ⟨.of_quiet fun n hn => ?_, fun hno b' hb' => ?_⟩
  · rcases List.mem_append.mp hn with hn | hn
    · rcases List.mem_cons.mp hn with rfl | hn
      · exact hquiet _ List.mem_cons_self
      · exact (h n hn).toQuiet
    · exact hquiet n (List.mem_cons_of_mem o hn)
  · obtain rfl := Option.some.inj (hk.symm.trans hb')
    exact closes_pair ho hc fun n hn => (h n hn).plain hno b

/-- A bracket that nothing closes. -/
theorem unclosedBracket {hints : List String} {s : Span} (hk : bracketOf? k = some b) :
    BracketRun deep bare k [.fault unclosedMessage hints b.openingText s] := by
  refine ⟨⟨fun n hn => ?_, fun before f after heq hsays => ?_⟩, fun _ b' _ => closes_plain fun n hn => ?_⟩
  · obtain rfl := List.mem_singleton.mp hn
    exact .intro (.silent fun c hc => absurd hc List.not_mem_nil) fun c hc => absurd hc List.not_mem_nil
  · cases before with
    | nil =>
        obtain ⟨rfl, rfl⟩ := List.cons.inj heq
        exact .inr ⟨b, hk, rfl, fun _ => rfl⟩
    | cons m before => exact absurd (List.cons.inj heq).2 (by simp)
  · obtain rfl := List.mem_singleton.mp hn
    exact ⟨rfl, rfl⟩

end BracketRun

end ComponentMarkup.Script
