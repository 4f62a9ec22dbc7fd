import ComponentMarkup.Proofs.Script.Behind
import ComponentMarkup.Proofs.Script.Lockstep
import ComponentMarkup.Proofs.Tree.Within

/-!
# How operators nest

What the operators of an expression may have as operands: a binary operation only what binds tightly enough on
either side, an operator before its operand no binary operation, what follows an expression only a whole one, and
none of them a conditional or an assignment.

* `Bound` — what the parts of an operation may be; `WellBound` — a node whose parts are;
* `Bound.mapPlaces` — it does not depend on where the nodes stand;
* `Lexer.next_isLexed`, `wellBound_skipped` — tokens, white space and comments have no operands.
-/

namespace ComponentMarkup.Script

open ComponentMarkup.Text ComponentMarkup.Tree

variable {k : ScriptKind} {n op left right : Node} {ns ms : List Node} {power : Nat}

/-! ## Operations -/

/-- Nodes without the white space and the comments among them. -/
def significant (ns : List Node) : List Node :=
  ns.filter fun n => !n.kind.isTrivia

/-- The parts of a node: its children without white space and comments. -/
def partsOf (n : Node) : List Node :=
  significant n.children

/-- Whether a node is of one of several kinds. -/
def isOneOf (ks : List ScriptKind) (n : Node) : Bool :=
  n.kind.script?.any ks.contains

/-- Whether an operator is the one for powers. -/
def isPower (op : Node) : Bool :=
  op.isScript .binOp && op.text == "**"

/-- How tightly a binary operator binds. -/
def powerOf? (op : Node) : Option Nat :=
  op.kind.script?.bind fun k => (binaryPower? k op.text).map Prod.fst

/-- How tightly the operator of a binary operation binds. -/
def binaryPowerOf? (n : Node) : Option Nat :=
  match partsOf n with
  | [_, op, _] => powerOf? op
  | _ => none

/-- A node that, if it is a binary operation, binds at least as tightly as `power`. -/
def BindsAt (power : Nat) (n : Node) : Prop :=
  n.isScript .binary = true → ∃ own, binaryPowerOf? n = some own ∧ power ≤ own

/-- The kinds of operations without brackets around them, from the loosest. -/
def looseKinds : List ScriptKind :=
  [.assignment, .ternary]

/-- **What the parts of an operation may be.**  Binary operations group to the left, except for powers, which
group to the right. -/
def Bound (k : ScriptKind) (parts : List Node) : Prop :=
  match k with
  | .binary => ∃ left op right power, parts = [left, op, right] ∧ powerOf? op = some power ∧
      BindsAt (if isPower op then power + 1 else power) left ∧
      BindsAt (if isPower op then power else power + 1) right ∧
      isOneOf looseKinds left = false ∧ isOneOf looseKinds right = false
  | .unary => ∃ op operand, parts = [op, operand] ∧ isOneOf (.binary :: looseKinds) operand = false
  | .ternary => ∃ condition rest, parts = condition :: rest ∧ isOneOf looseKinds condition = false
  | .member | .index | .call | .postfixExpr => ∃ object rest, parts = object :: rest ∧
      isOneOf (.unary :: .binary :: looseKinds) object = false
  | _ => True

/-- A node whose parts are what its kind asks for. -/
def WellBound (n : Node) : Prop :=
  ∀ k, n.kind = .script k → Bound k (partsOf n)

theorem significant_append (ns ms : List Node) : significant (ns ++ ms) = significant ns ++ significant ms :=
  List.filter_append ..

theorem significant_trivia (h : ∀ n ∈ ns, n.kind.isTrivia = true) : significant ns = [] := by
  refine List.filter_eq_nil_iff.mpr fun n hn => ?_
  rw [h n hn]
  exact Bool.false_ne_true

theorem significant_single (h : n.kind.isTrivia = false) : significant [n] = [n] := by
  unfold significant
  rw [List.filter_cons_of_pos (by rw [h]; rfl), List.filter_nil]

theorem partsOf_branchAt (k : ScriptKind) (place : Nat) (ns : List Node) :
    partsOf (.branchAt (.script k) place ns) = significant ns := by
  cases ns with
  | nil => rfl
  | cons n ns => rfl

theorem kind_branchAt (k : ScriptKind) (place : Nat) (ns : List Node) :
    (Node.branchAt (.script k) place ns).kind = .script k := by
  cases ns with
  | nil => rfl
  | cons n ns => rfl

/-- A branch is well bound if its parts are. -/
theorem WellBound.branchAt {place : Nat} (h : Bound k (significant ns)) :
    WellBound (.branchAt (.script k) place ns) := by
  intro l hl
  rw [kind_branchAt] at hl
  obtain rfl := Kind.script.inj hl
  rwa [partsOf_branchAt]

/-! ### Moving places -/

theorem significant_mapPlaces (f : Nat → Nat) (ns : List Node) :
    significant (ns.map (Node.mapPlaces f)) = (significant ns).map (Node.mapPlaces f) := by
  unfold significant
  rw [List.filter_map]
  simp only [Function.comp_def, Node.kind_mapPlaces]

theorem partsOf_mapPlaces (f : Nat → Nat) (n : Node) :
    partsOf (n.mapPlaces f) = (partsOf n).map (Node.mapPlaces f) := by
  have hchildren : (n.mapPlaces f).children = n.children.map (Node.mapPlaces f) := by
    cases n with
    | inner k s host count faulty cs => exact Node.mapPlacesOf_eq f cs
    | _ => rfl
  unfold partsOf
  rw [hchildren, significant_mapPlaces]

section MapPlaces

variable (f : Nat → Nat)

theorem isOneOf_mapPlaces (ks : List ScriptKind) (n : Node) : isOneOf ks (n.mapPlaces f) = isOneOf ks n := by
  unfold isOneOf
  rw [Node.kind_mapPlaces]

theorem powerOf?_mapPlaces (op : Node) : powerOf? (op.mapPlaces f) = powerOf? op := by
  unfold powerOf?
  rw [Node.kind_mapPlaces, Node.text_mapPlaces]

theorem isPower_mapPlaces (op : Node) : isPower (op.mapPlaces f) = isPower op := by
  unfold isPower Node.isScript
  rw [Node.kind_mapPlaces, Node.text_mapPlaces]

theorem binaryPowerOf?_mapPlaces (n : Node) : binaryPowerOf? (n.mapPlaces f) = binaryPowerOf? n := by
  unfold binaryPowerOf?
  rw [partsOf_mapPlaces]
  rcases partsOf n with _ | ⟨left, _ | ⟨op, _ | ⟨right, _ | ⟨more, rest⟩⟩⟩⟩
  · rfl
  · rfl
  · rfl
  · exact powerOf?_mapPlaces f op
  · rfl

theorem BindsAt.mapPlaces (h : BindsAt power n) : BindsAt power (n.mapPlaces f) := by
  intro hbinary
  unfold Node.isScript at hbinary
  rw [Node.kind_mapPlaces] at hbinary
  rw [binaryPowerOf?_mapPlaces]
  exact h hbinary

/-- What the parts of an operation may be does not depend on where they stand. -/
theorem Bound.mapPlaces (h : Bound k ns) : Bound k (ns.map (Node.mapPlaces f)) := by
  unfold Bound at h ⊢
  split at h
  · obtain ⟨left, op, right, power, rfl, hpower, hleft, hright, hloose, hloose'⟩ := h
    refine ⟨_, _, _, power, rfl, ?_, ?_, ?_, ?_, ?_⟩
    · rw [powerOf?_mapPlaces, hpower]
    · rw [isPower_mapPlaces]
      exact hleft.mapPlaces f
    · rw [isPower_mapPlaces]
      exact hright.mapPlaces f
    · rw [isOneOf_mapPlaces, hloose]
    · rw [isOneOf_mapPlaces, hloose']
  · obtain ⟨op, operand, rfl, hoperand⟩ := h
    exact ⟨_, _, rfl, by rw [isOneOf_mapPlaces, hoperand]⟩
  · obtain ⟨condition, rest, rfl, hcondition⟩ := h
    exact ⟨_, _, rfl, by rw [isOneOf_mapPlaces, hcondition]⟩
  iterate 4
    · obtain ⟨object, rest, rfl, hobject⟩ := h
      exact ⟨_, _, rfl, by rw [isOneOf_mapPlaces, hobject]⟩
  · trivial

theorem WellBound.mapPlaces (h : WellBound n) : WellBound (n.mapPlaces f) := by
  intro k hk
  rw [Node.kind_mapPlaces] at hk
  rw [partsOf_mapPlaces]
  exact (h k hk).mapPlaces f

end MapPlaces

/-! ## Tokens -/

/-- Nothing is asked of the parts of what is no operation. -/
theorem bound_other (h : operationKinds.contains k = false) : Bound k ns := by
  unfold Bound
  split <;> first
    | exact Bool.noConfusion h
    | trivial

/-- A leaf of a kind that is no operation, or a fault. -/
def IsLexed (n : Node) : Prop :=
  (∃ k text s, operationKinds.contains k = false ∧ n = .leaf (.script k) text s) ∨
    ∃ message hints text s, n = .fault message hints text s

namespace IsLexed

theorem wellBound (h : IsLexed n) : n.Throughout WellBound := by
  rcases h with ⟨k, text, s, hk, rfl⟩ | ⟨message, hints, text, s, rfl⟩
  · exact .intro (fun l hl => bound_other (Kind.script.inj hl ▸ hk)) fun c hc => absurd hc List.not_mem_nil
  · exact .intro (fun l hl => Kind.noConfusion hl) fun c hc => absurd hc List.not_mem_nil

theorem isFault (h : IsLexed n) : n.isFault = n.faulty := by
  rcases h with ⟨k, text, s, _, rfl⟩ | ⟨message, hints, text, s, rfl⟩
  · rfl
  · rfl

theorem withKind (h : IsLexed n) (hk : operationKinds.contains k = false) : IsLexed (n.withKind (.script k)) := by
  rcases h with ⟨l, text, s, _, rfl⟩ | ⟨message, hints, text, s, rfl⟩
  · exact .inl ⟨k, text, s, hk, rfl⟩
  · exact .inr ⟨message, hints, text, s, rfl⟩

theorem faultOf (h : IsLexed n) {message : String} : (Parser.faultOf n message).faulty = true := by
  unfold Parser.faultOf
  split
  · rename_i hfault
    rwa [h.isFault] at hfault
  · rfl

end IsLexed

theorem faulty_hint (h : n.faulty = true) (text : String) : (n.hint text).faulty = true := by
  cases n with
  | fault message hints text s => rfl
  | _ => exact h

/-- **What a lexer reads has no operands.** -/
theorem Lexer.next_isLexed (lx : Lexer) : IsLexed lx.next.1 := by
  unfold Lexer.next
  split
  · exact .inl ⟨_, _, _, rfl, rfl⟩
  · rename_i c cs _
    have hbuilt := fun k (hk : isBuilt k = true) => lexeme_not_built hk lx.before c cs
    generalize lexeme lx.before c cs = token at hbuilt
    cases htoken : token.kind with
    | error message =>
        simp only [htoken]
        exact .inr ⟨_, _, _, _, rfl⟩
    | ok k =>
        simp only [htoken]
        refine .inl ⟨k, _, _, ?_, rfl⟩
        by_contra hop
        refine hbuilt k ?_ htoken
        revert hop
        cases k <;> decide

/-- White space and comments are what a lexer reads. -/
theorem readTrivia_mem {previousStop : Nat} (fuel : Nat) (lx : Lexer) (nodes : Array Node) (count : Nat)
    (newline : Bool) : ∀ m ∈ (readTrivia previousStop fuel lx nodes count newline).2.2.toList,
      m ∈ nodes.toList ∨ ∃ lx' : Lexer, m = lx'.next.1 ∧ m.kind.isTrivia = true := by
  induction fuel generalizing lx nodes count newline with
  | zero => exact fun m hm => .inl hm
  | succ fuel ih =>
      rw [readTrivia_succ]
      split
      · rename_i htrivia
        intro m hm
        rcases ih _ _ _ _ m hm with hm | hm
        · rw [Array.toList_push, List.mem_append, List.mem_singleton] at hm
          rcases hm with hm | rfl
          · exact .inl hm
          · exact .inr ⟨lx, rfl, htrivia⟩
        · exact .inr hm
      · exact fun m hm => .inl hm

theorem lexed_skipped (lx : Lexer) : ∀ m ∈ lx.skipped, ∃ lx' : Lexer, m = lx'.next.1 ∧ m.kind.isTrivia = true :=
  fun m hm => (readTrivia_mem _ _ _ _ _ m hm).resolve_left List.not_mem_nil

theorem wellBound_skipped (lx : Lexer) : ∀ m ∈ lx.skipped, m.kind.isTrivia = true ∧ m.Throughout WellBound := by
  intro m hm
  obtain ⟨lx', rfl, htrivia⟩ := lexed_skipped lx m hm
  exact ⟨htrivia, lx'.next_isLexed.wellBound⟩

end ComponentMarkup.Script
