import ComponentMarkup.Proofs.Program.Everywhere

/-!
# The strings of an expression

An expression is printed with its string literals in the order in which they stand in it.  Simplifying joins some that
stand side by side.  It loses none, makes up none and changes no order.

Only some strings are content of the document: those that stand in arrays, as children of elements and as arguments of
calls.  The others name elements, are values of properties, or stand in script.

* `Expr.strings` — all string literals of an expression;
* `Joins` — strings some of which are joined with their neighbours;
* `simplify_strings` — simplifying joins strings;
* `Spells`, `layout_spells` — the strings of an expression are printed as literals, in order;
* `Expr.prose`, `prose_sublist` — those that are content.
-/

namespace ComponentMarkup.Program

/-! ## All strings -/

mutual

/-- The string literals of an expression, in the order in which they are printed. -/
def Expr.strings : Expr → List String
  | .mk _ form => form.strings

/-- The string literals of a form. -/
def Form.strings : Form → List String
  | .null | .bool _ | .ident _ => []
  | .str s => [s]
  | .index e _ => e.strings
  | .array elems => elemStrings elems
  | .object members => memberStrings members
  | .call callee arguments => callee.strings ++ elemStrings arguments
  | .arrow _ body => body.strings
  | .scope statements body => statementStrings statements ++ body.strings
  | .code pieces => codeStrings pieces

/-- The string literals of an element. -/
def Elem.strings : Elem → List String
  | .item e => e.strings
  | .spread e => e.strings

/-- The string literals of several elements. -/
def elemStrings : List Elem → List String
  | [] => []
  | elem :: elems => elem.strings ++ elemStrings elems

/-- The string literals of a member. -/
def Member.strings : Member → List String
  | .pair _ e => e.strings
  | .spread e => e.strings
  | .code pieces => codeStrings pieces

/-- The string literals of several members. -/
def memberStrings : List Member → List String
  | [] => []
  | member :: members => member.strings ++ memberStrings members

/-- The string literals of a piece of script.  Those that are written in its text are not among them. -/
def Piece.strings : Piece → List String
  | .text _ _ => []
  | .expr e => e.strings

/-- The string literals between pieces of script. -/
def codeStrings : List Piece → List String
  | [] => []
  | piece :: pieces => piece.strings ++ codeStrings pieces

/-- The string literals of several statements. -/
def statementStrings : List (List Piece) → List String
  | [] => []
  | code :: statements => codeStrings code ++ statementStrings statements

end

theorem elemStrings_append (elems others : List Elem) :
    elemStrings (elems ++ others) = elemStrings elems ++ elemStrings others := by
  induction elems with
  | nil => rfl
  | cons elem elems ih => simp only [List.cons_append, elemStrings, ih, List.append_assoc]

theorem memberStrings_append (members others : List Member) :
    memberStrings (members ++ others) = memberStrings members ++ memberStrings others := by
  induction members with
  | nil => rfl
  | cons member members ih => simp only [List.cons_append, memberStrings, ih, List.append_assoc]

@[simp] theorem strings_inherit (e : Expr) (origin : Option Nat) : (e.inherit origin).strings = e.strings := by
  obtain ⟨o, form⟩ := e
  rfl

/-! ## Joined strings -/

/-- Strings some of which are joined with those behind them.  Each string goes into one of the joined ones. -/
inductive Joins : List String → List String → Prop
  | nil : Joins [] []
  | keep (s : String) {ss ts : List String} (rest : Joins ss ts) : Joins (s :: ss) (s :: ts)
  | join (s : String) {t : String} {ss ts : List String} (rest : Joins ss (t :: ts)) :
      Joins (s :: ss) ((s ++ t) :: ts)

namespace Joins

variable {ss ts us ss' ts' : List String}

theorem refl (ss : List String) : Joins ss ss := by
  induction ss with
  | nil => exact .nil
  | cons s ss ih => exact .keep s ih

theorem append (h : Joins ss ts) (h' : Joins ss' ts') : Joins (ss ++ ss') (ts ++ ts') := by
  induction h with
  | nil => exact h'
  | keep s _ ih => exact .keep s ih
  | join s _ ih => exact .join s ih

/-- What is joined twice is joined. -/
theorem trans (h : Joins ss ts) (h' : Joins ts us) : Joins ss us := by
  induction h generalizing us with
  | nil => exact h'
  | keep s _ ih =>
      cases h' with
      | keep _ rest => exact .keep s (ih rest)
      | join _ rest => exact .join s (ih rest)
  | @join s t ss ts _ ih =>
      cases h' with
      | keep _ rest => exact .join s (ih (.keep t rest))
      | @join _ u _ us rest =>
          rw [String.append_assoc]
          exact .join s (ih (.join t rest))

end Joins

/-- Joining string literals that stand side by side joins strings. -/
theorem mergeStrings_strings (elems : List Elem) : Joins (elemStrings elems) (elemStrings (mergeStrings elems)) := by
  induction elems with
  | nil => exact .nil
  | cons elem elems ih =>
      rcases mergeStrings_cases elem elems with hkept | ⟨o, s, o', t, rest, rfl, hmerged, hjoined⟩
      · rw [hkept]
        exact (Joins.refl elem.strings).append ih
      · rw [hmerged] at ih
        rw [hjoined]
        exact .join s ih

theorem mergeStringsFrom_strings (n : Nat) (elems : List Elem) :
    Joins (elemStrings elems) (elemStrings (mergeStringsFrom n elems)) := by
  have hparts := (Joins.refl (elemStrings (elems.take n))).append (mergeStrings_strings (elems.drop n))
  rw [← elemStrings_append, List.take_append_drop] at hparts
  rw [mergeStringsFrom, elemStrings_append]
  exact hparts

/-! ## Simplified expressions -/

theorem spreadElems_strings (e : Expr) : elemStrings (spreadElems e) = e.strings := by
  obtain ⟨o, form⟩ := e
  cases form with
  | array elems => rfl
  | _ => exact List.append_nil _

theorem spreadMembers_strings (e : Expr) : memberStrings (spreadMembers e) = e.strings := by
  obtain ⟨o, form⟩ := e
  cases form with
  | object members => rfl
  | _ => exact List.append_nil _

theorem objectOf_strings (origin : Option Nat) (members : List Member) :
    (objectOf origin members).strings = memberStrings members := by
  rcases objectOf_cases origin members with hobject | ⟨e, rfl, hspread⟩
  · rw [hobject]
    rfl
  · rw [hspread, strings_inherit]
    exact (List.append_nil _).symm

theorem callOf_strings (origin : Option Nat) (callee : Expr) (arguments : List Elem) :
    Joins (callee.strings ++ elemStrings arguments) (callOf origin callee arguments).strings := by
  refine (Joins.refl callee.strings).append ?_
  by_cases hfactory : isFactory callee = true
  · rw [if_pos hfactory]
    exact mergeStringsFrom_strings 2 arguments
  · rw [if_neg hfactory]
    exact .refl _

theorem scopeOf_strings (origin : Option Nat) (statements : List Code) (body : Expr) :
    (scopeOf origin statements body).strings = statementStrings statements ++ body.strings := by
  unfold scopeOf
  split
  · rename_i hnone
    rw [List.isEmpty_iff.mp hnone, strings_inherit]
    rfl
  · rfl

mutual

/-- **Simplifying an expression joins strings** that stand side by side, and does nothing else to them. -/
theorem simplify_strings : ∀ e : Expr, Joins e.strings (simplify e).strings
  | .mk origin form => simplifyForm_strings origin form

theorem simplifyForm_strings (origin : Option Nat) : ∀ form : Form, Joins form.strings (simplifyForm origin form).strings
  | .null | .bool _ | .ident _ => .nil
  | .str s => .refl [s]
  | .index e _ => simplify_strings e
  | .array elems => (simplifyElems_strings elems).trans (mergeStrings_strings (simplifyElems elems))
  | .object members => by
      rw [simplifyForm, objectOf_strings]
      exact simplifyMembers_strings members
  | .call callee arguments =>
      ((simplify_strings callee).append (simplifyElems_strings arguments)).trans
        (callOf_strings origin (simplify callee) (simplifyElems arguments))
  | .arrow _ body => simplify_strings body
  | .scope statements body => by
      rw [simplifyForm, scopeOf_strings]
      exact (simplifyStatements_strings statements).append (simplify_strings body)
  | .code pieces => simplifyCode_strings pieces

theorem simplifyElem_strings : ∀ elem : Elem, Joins elem.strings (elemStrings (simplifyElem elem))
  | .item e => by
      rw [simplifyElem, elemStrings, elemStrings, List.append_nil]
      exact simplify_strings e
  | .spread e => by
      rw [simplifyElem, spreadElems_strings]
      exact simplify_strings e

theorem simplifyElems_strings : ∀ elems : List Elem, Joins (elemStrings elems) (elemStrings (simplifyElems elems))
  | [] => .nil
  | elem :: elems => by
      rw [simplifyElems, elemStrings_append]
      exact (simplifyElem_strings elem).append (simplifyElems_strings elems)

theorem simplifyMember_strings : ∀ member : Member, Joins member.strings (memberStrings (simplifyMember member))
  | .pair _ e => by
      rw [simplifyMember, memberStrings, memberStrings, List.append_nil]
      exact simplify_strings e
  | .spread e => by
      rw [simplifyMember, spreadMembers_strings]
      exact simplify_strings e
  | .code pieces => by
      rw [simplifyMember, memberStrings, memberStrings, List.append_nil]
      exact simplifyCode_strings pieces

theorem simplifyMembers_strings : ∀ members : List Member,
    Joins (memberStrings members) (memberStrings (simplifyMembers members))
  | [] => .nil
  | member :: members => by
      rw [simplifyMembers, memberStrings_append]
      exact (simplifyMember_strings member).append (simplifyMembers_strings members)

theorem simplifyPiece_strings : ∀ piece : Piece, Joins piece.strings (simplifyPiece piece).strings
  | .text _ _ => .nil
  | .expr e => simplify_strings e

theorem simplifyCode_strings : ∀ pieces : List Piece, Joins (codeStrings pieces) (codeStrings (simplifyCode pieces))
  | [] => .nil
  | piece :: pieces => (simplifyPiece_strings piece).append (simplifyCode_strings pieces)

theorem simplifyStatements_strings : ∀ statements : List (List Piece),
    Joins (statementStrings statements) (statementStrings (simplifyStatements statements))
  | [] => .nil
  | code :: statements => (simplifyCode_strings code).append (simplifyStatements_strings statements)

end

/-! ## Printed strings -/

/-- A text in which the literals of strings stand, in order, with gaps around them. -/
inductive Spells : String → List String → Prop
  | rest (gap : String) : Spells gap []
  | literal (gap s : String) {text : String} {ss : List String} (rest : Spells text ss) :
      Spells (gap ++ (literal s ++ text)) (s :: ss)

/-- Chunks in whose text the literals of strings stand. -/
abbrev ChunksSpell (chunks : List Chunk) (ss : List String) : Prop :=
  Spells (chunkText chunks) ss

section

variable {text other : String} {ss ts : List String} {chunks others : List Chunk}

namespace Spells

/-- More text may be put in front. -/
theorem behind (front : String) (h : Spells text ss) : Spells (front ++ text) ss := by
  cases h with
  | rest => exact .rest _
  | literal gap s rest =>
      rw [← String.append_assoc]
      exact .literal (front ++ gap) s rest

theorem append (h : Spells text ss) (h' : Spells other ts) : Spells (text ++ other) (ss ++ ts) := by
  induction h with
  | rest gap => exact h'.behind gap
  | literal gap s _ ih =>
      rw [String.append_assoc, String.append_assoc]
      exact .literal gap s ih

end Spells

namespace ChunksSpell

/-- A literal on its own. -/
theorem literal (s : String) : ChunksSpell [.text (literal s)] [s] := by
  have hsingle : chunkText [.text (Program.literal s)] = "" ++ (Program.literal s ++ "") := by
    simp [chunkText]
  unfold ChunksSpell
  rw [hsingle]
  exact .literal "" s (.rest "")

/-- Chunks of which none is a literal. -/
theorem none (chunks : List Chunk) : ChunksSpell chunks [] :=
  .rest (chunkText chunks)

theorem append (h : ChunksSpell chunks ss) (h' : ChunksSpell others ts) :
    ChunksSpell (chunks ++ others) (ss ++ ts) := by
  unfold ChunksSpell
  rw [chunkText_append]
  exact Spells.append h h'

/-- Chunks with others around them. -/
theorem between (front back : List Chunk) (h : ChunksSpell chunks ss) : ChunksSpell (front ++ chunks ++ back) ss := by
  have hall := ((none front).append h).append (none back)
  rwa [List.append_nil] at hall

theorem behind (front : List Chunk) (h : ChunksSpell chunks ss) : ChunksSpell (front ++ chunks) ss :=
  (none front).append h

theorem parenthesized (h : ChunksSpell chunks ss) (needed : Bool) : ChunksSpell (parenthesized needed chunks) ss := by
  unfold Program.parenthesized
  split
  · exact h.between [.text "("] [.text ")"]
  · exact h

theorem statementLine (h : ChunksSpell chunks ss) : ChunksSpell (statementLine chunks) ss := by
  unfold Program.statementLine
  split
  · exact h.between [] _
  · exact h.between [] _

/-- Parts with separators between them. -/
theorem separated (separator : String) {parts : List (List Chunk)} {sss : List (List String)}
    (h : List.Forall₂ ChunksSpell parts sss) : ChunksSpell (separated separator parts) sss.flatten := by
  induction h with
  | nil => exact .none []
  | @cons part ss parts sss hpart hparts ih =>
      cases hparts with
      | nil =>
          rw [List.flatten_cons, List.flatten_nil, List.append_nil]
          exact hpart
      | cons => exact hpart.append (ih.behind [.text separator])

end ChunksSpell

end

theorem elemStrings_eq (elems : List Elem) : elemStrings elems = (elems.map Elem.strings).flatten := by
  induction elems with
  | nil => rfl
  | cons elem elems ih => rw [elemStrings, ih, List.map_cons, List.flatten_cons]

theorem memberStrings_eq (members : List Member) : memberStrings members = (members.map Member.strings).flatten := by
  induction members with
  | nil => rfl
  | cons member members ih => rw [memberStrings, ih, List.map_cons, List.flatten_cons]

mutual

/-- **The strings of an expression are printed as literals**, in order. -/
theorem layout_spells : ∀ e : Expr, ChunksSpell e.layout e.strings
  | .mk origin form => (formLayout_spells form).behind (marks origin)

theorem formLayout_spells : ∀ form : Form, ChunksSpell form.layout form.strings
  | .null | .bool _ | .ident _ => .none _
  | .str s => .literal s
  | .index e _ => ((layout_spells e).parenthesized _).between [] _
  | .array elems => by
      rw [Form.strings, elemStrings_eq]
      exact (ChunksSpell.separated ", " (elemLayouts_spell elems)).between [.text "["] [.text "]"]
  | .object members => by
      rw [Form.strings, memberStrings_eq]
      exact (ChunksSpell.separated ", " (memberLayouts_spell members)).between [.text "\x7b"] [.text "\x7d"]
  | .call callee arguments => by
      rw [Form.strings, elemStrings_eq]
      exact (((layout_spells callee).parenthesized _).append
        ((ChunksSpell.separated ", " (elemLayouts_spell arguments)).behind [.text "("])).between [] [.text ")"]
  | .arrow parameter body => ((layout_spells body).parenthesized _).behind [.text (parameter ++ " => ")]
  | .scope statements body =>
      (((statementLayouts_spell statements).behind [.text "(() => \x7b\n"]).append
        ((layout_spells body).behind [.text "return "])).between [] [.text ";\n\x7d)()"]
  | .code pieces => codeLayout_spells pieces

theorem elemLayout_spells : ∀ elem : Elem, ChunksSpell elem.layout elem.strings
  | .item e => layout_spells e
  | .spread e => ((layout_spells e).parenthesized _).behind [.text "..."]

theorem elemLayouts_spell : ∀ elems : List Elem, List.Forall₂ ChunksSpell (elemLayouts elems) (elems.map Elem.strings)
  | [] => .nil
  | elem :: elems => .cons (elemLayout_spells elem) (elemLayouts_spell elems)

theorem memberLayout_spells : ∀ member : Member, ChunksSpell member.layout member.strings
  | .pair key e => (layout_spells e).behind [.text (objectKey key ++ ": ")]
  | .spread e => ((layout_spells e).parenthesized _).behind [.text "..."]
  | .code pieces => codeLayout_spells pieces

theorem memberLayouts_spell : ∀ members : List Member,
    List.Forall₂ ChunksSpell (memberLayouts members) (members.map Member.strings)
  | [] => .nil
  | member :: members => .cons (memberLayout_spells member) (memberLayouts_spell members)

theorem pieceLayout_spells : ∀ piece : Piece, ChunksSpell piece.layout piece.strings
  | .text _ _ => .none _
  | .expr e => (layout_spells e).parenthesized _

theorem codeLayout_spells : ∀ pieces : List Piece, ChunksSpell (codeLayout pieces) (codeStrings pieces)
  | [] => .none []
  | piece :: pieces => (pieceLayout_spells piece).append (codeLayout_spells pieces)

theorem statementLayouts_spell : ∀ statements : List (List Piece),
    ChunksSpell (statementLayouts statements) (statementStrings statements)
  | [] => .none []
  | code :: statements => (codeLayout_spells code).statementLine.append (statementLayouts_spell statements)

end

/-! ## Content -/

/-- Whether the second of some arguments is an object. -/
def hasProperties : List Elem → Bool
  | _ :: .item (.mk _ (.object _)) :: _ => true
  | _ => false

/-- What a literal says: nothing if it is empty. -/
def literalProse (s : String) : List String :=
  if s.isEmpty then [] else [s]

mutual

/-- The string literals of an expression that are content of the document: those among the items of arrays, the children
of elements and the arguments of other calls. -/
def Expr.prose : Expr → List String
  | .mk _ form => form.prose

/-- The content of a form. -/
def Form.prose : Form → List String
  | .null | .bool _ | .ident _ | .index _ _ | .object _ | .code _ => []
  | .str s => literalProse s
  | .array elems => elemsProse 0 elems
  -- an element has a name and properties in front of its children
  | .call callee arguments => elemsProse (if isFactory callee && hasProperties arguments then 2 else 0) arguments
  | .arrow _ body => body.prose
  | .scope _ body => body.prose

/-- The content of elements behind the first few. -/
def elemsProse : (skipped : Nat) → List Elem → List String
  | _, [] => []
  | skipped + 1, _ :: elems => elemsProse skipped elems
  | 0, .item e :: elems => e.prose ++ elemsProse 0 elems
  | 0, .spread e :: elems => e.prose ++ elemsProse 0 elems

end

theorem literalProse_sublist (s : String) : (literalProse s).Sublist [s] := by
  unfold literalProse
  split
  · exact List.nil_sublist _
  · exact List.Sublist.refl _

mutual

/-- Content is among the strings of an expression. -/
theorem prose_sublist : ∀ e : Expr, e.prose.Sublist e.strings
  | .mk _ form => formProse_sublist form

theorem formProse_sublist : ∀ form : Form, form.prose.Sublist form.strings
  | .null | .bool _ | .ident _ | .index _ _ | .object _ | .code _ => List.nil_sublist _
  | .str s => literalProse_sublist s
  | .array elems => elemsProse_sublist 0 elems
  | .call _ arguments => (elemsProse_sublist _ arguments).trans (List.sublist_append_right _ _)
  | .arrow _ body => prose_sublist body
  | .scope _ body => (prose_sublist body).trans (List.sublist_append_right _ _)

theorem elemsProse_sublist : ∀ (skipped : Nat) (elems : List Elem), (elemsProse skipped elems).Sublist (elemStrings elems)
  | _, [] => by
      rw [elemsProse]
      exact List.nil_sublist _
  | skipped + 1, _ :: elems => (elemsProse_sublist skipped elems).trans (List.sublist_append_right _ _)
  | 0, .item e :: elems => (prose_sublist e).append (elemsProse_sublist 0 elems)
  | 0, .spread e :: elems => (prose_sublist e).append (elemsProse_sublist 0 elems)

end

section

variable (e : Expr) (elems others : List Elem)

@[simp] theorem prose_located (origin : Nat) : (e.located origin).prose = e.prose := by
  obtain ⟨o, form⟩ := e
  rfl

/-- All arguments of a call that builds no element are content. -/
theorem prose_call (callee : Expr) (h : hasProperties elems = false) :
    (Expr.call callee elems).prose = elemsProse 0 elems := by
  show elemsProse (if isFactory callee && hasProperties elems then 2 else 0) elems = elemsProse 0 elems
  rw [h, Bool.and_false, if_neg Bool.false_ne_true]

/-- The content of an element is that of its children. -/
@[simp] theorem prose_element (name : Expr) (members : List Member) :
    (Expr.element name (.object members) elems).prose = elemsProse 0 elems :=
  rfl

@[simp] theorem prose_tag (name : String) : (Expr.tag name elems).prose = elemsProse 0 elems :=
  rfl

theorem elemsProse_append : elemsProse 0 (elems ++ others) = elemsProse 0 elems ++ elemsProse 0 others := by
  induction elems with
  | nil => rfl
  | cons elem elems ih =>
      cases elem with
      | item e => rw [List.cons_append, elemsProse, elemsProse, ih, List.append_assoc]
      | spread e => rw [List.cons_append, elemsProse, elemsProse, ih, List.append_assoc]

theorem elemsProse_item : elemsProse 0 [.item e] = e.prose :=
  List.append_nil e.prose

theorem elemsProse_spread : elemsProse 0 [.spread e] = e.prose :=
  List.append_nil e.prose

theorem elemsProse_items (exprs : List Expr) : elemsProse 0 (exprs.map Elem.item) = exprs.flatMap Expr.prose := by
  induction exprs with
  | nil => rfl
  | cons e exprs ih => rw [List.map_cons, elemsProse, ih, List.flatMap_cons]

end

end ComponentMarkup.Program
