import ComponentMarkup.Proofs.Script.ScanStable
import ComponentMarkup.Script.Parser
import Mathlib.Data.Option.Basic

/-!
# What may follow a token

The lexer takes the longest token, so what stands behind a token may change it: a word grows, two operators
become one, a slash becomes a comment.  A token stays what it is if what follows it is replaced by a text that
agrees with it up to a character that continues no operator and, behind a word, does not go on with the word.

* `operators` — the operators, each before those it starts with;
* `Agree` — a text that may stand in the place of another behind a token;
* `lexeme_stable` — a token stays what it is in front of an agreeing text;
* `lexeme_endsWord` — no word goes on behind a word or a number;
* `lexeme_closed` — a token that ends where it closes stays what it is whatever follows.
-/

namespace ComponentMarkup.Text

/-- The characters that an operator may continue with, and those that turn a slash into a comment. -/
def operatorParts : List Char :=
  ['.', '=', '>', '<', '+', '-', '*', '&', '|', '?', '/']

/-- A character that continues no operator, and no dot as a number. -/
def isCalm (c : Char) : Bool :=
  !isDigit c && !operatorParts.contains c

end ComponentMarkup.Text

namespace ComponentMarkup.Tree

/-- The kind of a token, reserved words counting as identifiers: which of the two a word is depends on what
stands before it. -/
def ScriptKind.category (k : ScriptKind) : ScriptKind :=
  if Script.Parser.reserved.contains k then .ident else k

end ComponentMarkup.Tree

namespace ComponentMarkup.Script

open ComponentMarkup.Text ComponentMarkup.Tree

variable {k : ScriptKind} {c : Char} {cs rest rest' before : List Char} {n : Nat}

/-! ## Operators -/

/-- The operators, each before those that it starts with. -/
def operators : List (List Char × ScriptKind) :=
  [(['.', '.', '.'], .dots), (['.'], .dot), (['{'], .leftBrace), (['}'], .rightBrace),
    (['['], .leftBracket), ([']'], .rightBracket), (['('], .leftParen), ([')'], .rightParen),
    ([','], .comma), ([';'], .semicolon), ([':'], .colon), (['?', '.'], .questionDot),
    (['?', '?', '='], .assign), (['?', '?'], .binOp), (['?'], .question), (['=', '>'], .arrow),
    (['=', '=', '='], .binOp), (['=', '='], .binOp), (['='], .assign), (['!', '=', '='], .binOp),
    (['!', '='], .binOp), (['!'], .bang), (['~'], .bang), (['+', '+'], .step), (['-', '-'], .step),
    (['+', '='], .assign), (['-', '='], .assign), (['+'], .plus), (['-'], .minus),
    (['*', '*', '='], .assign), (['*', '*'], .binOp), (['*', '='], .assign), (['*'], .star),
    (['&', '&', '='], .assign), (['&', '&'], .binOp), (['|', '|', '='], .assign), (['|', '|'], .binOp),
    (['<', '<', '='], .assign), (['<', '<'], .binOp), (['>', '>', '>', '='], .assign),
    (['>', '>', '>'], .binOp), (['>', '>', '='], .assign), (['>', '>'], .binOp), (['<', '='], .binOp),
    (['>', '='], .binOp), (['<'], .binOp), (['>'], .binOp), (['/', '='], .assign), (['/'], .binOp),
    (['%', '='], .assign), (['%'], .binOp), (['&', '='], .assign), (['&'], .binOp),
    (['|', '='], .assign), (['|'], .binOp), (['^', '='], .assign), (['^'], .binOp)]

theorem isPrefixOf_eq_false {op : List Char} (h : ∀ ds, cs = op ++ ds → False) : op.isPrefixOf cs = false := by
  rw [Bool.eq_false_iff, ne_eq, List.isPrefixOf_iff_prefix]
  rintro ⟨ds, hds⟩
  exact h ds hds.symm

theorem assignable_eq (length : Nat) (cs : List Char) : assignable length cs =
    match ['='].isPrefixOf cs with
    | true => ⟨.ok .assign, length + 1⟩
    | false => ⟨.ok .binOp, length⟩ := by
  cases cs with
  | nil => rfl
  | cons d ds =>
      by_cases hd : d = '='
      · subst hd
        rfl
      · have hequals : ('=' == d) = false := beq_eq_false_iff_ne.mpr (Ne.symm hd)
        simp [assignable, List.isPrefixOf, hd, hequals]

/-- Punctuation and operators are read from the table, except that a question mark in front of a number is
read alone. -/
theorem operatorLexeme?_eq (h : c = '?' → ¬ (cs.head? = some '.' ∧ cs.tail.head?.any isDigit = true)) :
    operatorLexeme? c cs =
      (operators.find? fun op => op.1.isPrefixOf (c :: cs)).map fun op => ⟨.ok op.2, op.1.length⟩ := by
  have hprefix := @isPrefixOf_eq_false
  unfold operatorLexeme?
  split
  case h_48 =>
    have hnone : ∀ op ∈ operators, ¬ op.1.isPrefixOf (c :: cs) = true := by
      simp [operators]
      grind
    rw [List.find?_eq_none.mpr hnone]
    rfl
  case h_42 =>
    have hhead : ∀ op, List.isPrefixOf ('>' :: op) cs = false := by
      intro op
      apply isPrefixOf_eq_false
      grind
    have hequals : List.isPrefixOf ['='] cs = false := isPrefixOf_eq_false ‹_›
    simp [operators, List.find?, List.isPrefixOf, hhead, hequals]
  all_goals
    simp [operators, assignable_eq, List.find?, List.isPrefixOf, -Option.some_eq_map_iff] <;> grind

/-- Behind its first character an operator has none that ends another. -/
theorem operators_tail : ∀ op ∈ operators, ∀ d ∈ op.1.tail, isCalm d = false := by
  have hall : (operators.all fun op => op.1.tail.all fun d => !isCalm d) = true := by decide
  intro op hop d hd
  simpa using List.all_eq_true.mp (List.all_eq_true.mp hall op hop) d hd

theorem operators_ne_nil : ∀ op ∈ operators, op.1 ≠ [] := by
  decide

/-- A text and another one that may stand in its place behind a token: they start alike, up to a character that
continues no operator. -/
def Agree (old new : List Char) : Prop :=
  ∃ shared old' new', old = shared ++ old' ∧ new = shared ++ new' ∧
    (shared.any isCalm = true ∨ Starts isCalm new' ∧ (shared = ['.'] → Starts (!isDigit ·) old'))

/-- No longer operator stands in the place of one. -/
theorem find?_operators_stable {op : List Char × ScriptKind} (hagree : Agree rest rest')
    (hfind : operators.find? (fun o => o.1.isPrefixOf (op.1 ++ rest)) = some op) :
    operators.find? (fun o => o.1.isPrefixOf (op.1 ++ rest')) = some op := by
  obtain ⟨_, before, behind, hsplit, hnone⟩ := List.find?_eq_some_iff_append.mp hfind
  refine List.find?_eq_some_iff_append.mpr ⟨?_, before, behind, hsplit, ?_⟩
  · exact List.isPrefixOf_iff_prefix.mpr (List.prefix_append _ _)
  intro o ho
  have hmem : o ∈ operators := by
    rw [hsplit]
    exact List.mem_append_left _ ho
  have hold : ¬ o.1 <+: op.1 ++ rest := by
    intro h
    have hno := hnone o ho
    rw [List.isPrefixOf_iff_prefix.mpr h] at hno
    exact absurd hno (by decide)
  rw [Bool.not_eq_true', Bool.eq_false_iff, ne_eq, List.isPrefixOf_iff_prefix]
  intro hnew
  obtain ⟨shared, old', new', rfl, rfl, hends⟩ := hagree
  rw [← List.append_assoc] at hold hnew
  rcases List.prefix_or_prefix_of_prefix hnew (List.prefix_append (op.1 ++ shared) new') with hshort | hlong
  · exact hold (hshort.trans (List.prefix_append _ _))
  obtain ⟨more, hmore⟩ := hlong
  match more with
  | [] =>
      rw [List.append_nil] at hmore
      rw [← hmore] at hold
      exact hold (List.prefix_append _ _)
  | d :: ds =>
      -- it would go on with a character that no operator has behind its first
      have hd : new'.head? = some d := by
        rw [← hmore, List.prefix_append_right_inj] at hnew
        obtain ⟨es, rfl⟩ := hnew
        rfl
      have hne : op.1 ≠ [] := operators_ne_nil op (List.mem_of_find?_eq_some hfind)
      have htail : ∀ e ∈ shared ++ d :: ds, isCalm e = false := by
        intro e he
        refine operators_tail o hmem e ?_
        rw [← hmore, List.append_assoc, List.tail_append_of_ne_nil hne]
        exact List.mem_append_right _ he
      rcases hends with hcalm | ⟨hcalm, _⟩
      · obtain ⟨e, he, hcalm⟩ := List.any_eq_true.mp hcalm
        rw [htail e (List.mem_append_left _ he)] at hcalm
        exact absurd hcalm Bool.false_ne_true
      · have hcalm := hcalm d hd
        rw [htail d (List.mem_append_right _ List.mem_cons_self)] at hcalm
        exact absurd hcalm Bool.false_ne_true

/-- What an agreeing text starts with. -/
theorem Agree.head (h : Agree rest rest') : rest'.head? = rest.head? ∨ Starts isCalm rest' := by
  obtain ⟨shared, old', new', rfl, rfl, hends⟩ := h
  cases shared with
  | nil =>
      rcases hends with hcalm | ⟨hcalm, _⟩
      · exact absurd hcalm Bool.false_ne_true
      · exact .inr hcalm
  | cons d ds => exact .inl rfl

theorem isDigit_of_isCalm (h : isCalm c = true) : isDigit c = false := by
  simp only [isCalm, Bool.and_eq_true, Bool.not_eq_true'] at h
  exact h.1

/-- A digit starts an agreeing text only if it starts the other one. -/
theorem Agree.digit (h : Agree rest rest') (hold : rest.head?.any isDigit = false) :
    rest'.head?.any isDigit = false := by
  rcases h.head with hhead | hcalm
  · rwa [hhead]
  · cases rest' with
    | nil => rfl
    | cons d ds => exact isDigit_of_isCalm (starts_cons.mp hcalm)

/-- A point in front of a digit starts an agreeing text only if it starts the other one. -/
theorem Agree.point (h : Agree rest rest')
    (hold : ¬ (rest.head? = some '.' ∧ rest.tail.head?.any isDigit = true)) :
    ¬ (rest'.head? = some '.' ∧ rest'.tail.head?.any isDigit = true) := by
  obtain ⟨shared, old', new', rfl, rfl, hends⟩ := h
  rintro ⟨hpoint, hdigit⟩
  have hdot : isCalm '.' = false := by decide
  match shared with
  | [] =>
      rcases hends with hcalm | ⟨hcalm, _⟩
      · exact absurd hcalm Bool.false_ne_true
      · rw [hcalm '.' hpoint] at hdot
        exact absurd hdot (by decide)
  | [d] =>
      obtain rfl : d = '.' := Option.some.inj hpoint
      rcases hends with hcalm | ⟨hcalm, _⟩
      · exact absurd hcalm (by decide)
      · cases new' with
        | nil => exact absurd hdigit Bool.false_ne_true
        | cons e es =>
            have he : isDigit e = true := hdigit
            rw [isDigit_of_isCalm (starts_cons.mp hcalm)] at he
            exact absurd he Bool.false_ne_true
  | d :: e :: ds => exact hold ⟨hpoint, hdigit⟩

theorem operatorLexeme?_point (h : cs.head?.any isDigit = true) :
    operatorLexeme? '?' ('.' :: cs) = some ⟨.ok .question, 1⟩ :=
  if_pos h

theorem operatorLexeme?_question (hdot : cs.head? ≠ some '.') (hquestion : cs.head? ≠ some '?') :
    operatorLexeme? '?' cs = some ⟨.ok .question, 1⟩ := by
  unfold operatorLexeme?
  split <;> simp_all

/-- A question mark in front of a number stays one. -/
theorem Agree.questionMark (hagree : Agree rest rest') (hpoint : rest.head? = some '.')
    (hdigit : rest.tail.head?.any isDigit = true) :
    operatorLexeme? '?' rest' = some ⟨.ok .question, 1⟩ := by
  obtain ⟨shared, old', new', rfl, rfl, hends⟩ := hagree
  match shared with
  | [] =>
      rcases hends with hcalm | ⟨hcalm, _⟩
      · exact absurd hcalm Bool.false_ne_true
      · refine operatorLexeme?_question ?_ ?_ <;> intro hhead <;> exact absurd (hcalm _ hhead) (by decide)
  | [d] =>
      obtain rfl : d = '.' := Option.some.inj hpoint
      rcases hends with hcalm | ⟨_, hold⟩
      · exact absurd hcalm (by decide)
      · cases old' with
        | nil => exact absurd hdigit Bool.false_ne_true
        | cons e es =>
            have he : isDigit e = true := hdigit
            have hno := starts_cons.mp (hold rfl)
            rw [he] at hno
            exact absurd hno (by decide)
  | d :: e :: ds =>
      obtain rfl : d = '.' := Option.some.inj hpoint
      exact operatorLexeme?_point hdigit

/-- The operator that the table has at the start of a text. -/
theorem find?_operators_eq (h : (operators.find? fun op => op.1.isPrefixOf (c :: (cs ++ rest))).map
      (fun op => (⟨.ok op.2, op.1.length⟩ : Lexeme)) = some ⟨.ok k, cs.length + 1⟩) :
    operators.find? (fun op => op.1.isPrefixOf (c :: cs ++ rest)) = some (c :: cs, k) := by
  obtain ⟨⟨chars, kind⟩, hfind, hop⟩ := Option.map_eq_some_iff.mp h
  have hkind : kind = k := Except.ok.inj (congrArg Lexeme.kind hop)
  have hlen : chars.length = (c :: cs).length := congrArg Lexeme.length hop
  have hprefix : chars <+: c :: cs ++ rest := List.isPrefixOf_iff_prefix.mp (List.find?_some
      (p := fun op : List Char × ScriptKind => op.1.isPrefixOf (c :: cs ++ rest)) hfind)
  have hchars : chars = c :: cs :=
    (List.prefix_of_prefix_length_le hprefix (List.prefix_append _ _) (Nat.le_of_eq hlen)).eq_of_length hlen
  rw [hkind, hchars] at hfind
  exact hfind

/-- Operators are the same in front of agreeing texts. -/
theorem operatorLexeme?_append (hagree : Agree rest rest')
    (h : operatorLexeme? c (cs ++ rest) = some ⟨.ok k, cs.length + 1⟩) :
    operatorLexeme? c (cs ++ rest') = some ⟨.ok k, cs.length + 1⟩ := by
  by_cases hmark : c = '?' ∧ (cs ++ rest).head? = some '.' ∧ (cs ++ rest).tail.head?.any isDigit = true
  · obtain ⟨rfl, hpoint, hdigit⟩ := hmark
    obtain ⟨ds, hds⟩ := List.head?_eq_some_iff.mp hpoint
    have hquestion : operatorLexeme? '?' (cs ++ rest) = some ⟨.ok .question, 1⟩ := by
      rw [hds] at hdigit ⊢
      exact operatorLexeme?_point hdigit
    obtain ⟨hkind, hlen⟩ := Lexeme.mk.inj (Option.some.inj (h.symm.trans hquestion))
    obtain rfl := Except.ok.inj hkind
    obtain rfl : cs = [] := List.eq_nil_of_length_eq_zero (Nat.succ.inj hlen)
    exact hagree.questionMark hpoint hdigit
  · rw [operatorLexeme?_eq fun hc hpoint => hmark ⟨hc, hpoint⟩] at h
    have hold : operators.find? (fun op => op.1.isPrefixOf ((c :: cs, k).1 ++ rest)) = some (c :: cs, k) :=
      find?_operators_eq h
    have hfind : operators.find? (fun op => op.1.isPrefixOf (c :: cs ++ rest')) = some (c :: cs, k) :=
      find?_operators_stable hagree hold
    have hnew : c = '?' →
        ¬ ((cs ++ rest').head? = some '.' ∧ (cs ++ rest').tail.head?.any isDigit = true) := by
      intro hc
      match cs, hmark with
      | [], hmark => exact hagree.point fun hpoint => hmark ⟨hc, hpoint⟩
      | [d], hmark =>
          rintro ⟨hpoint, hdigit⟩
          have hold : rest.head?.any isDigit = false :=
            Bool.eq_false_iff.mpr fun hold => hmark ⟨hc, hpoint, hold⟩
          have hno := hagree.digit hold
          rw [show rest'.head?.any isDigit = true from hdigit] at hno
          exact absurd hno (by decide)
      | d :: e :: ds, hmark => exact fun hpoint => hmark ⟨hc, hpoint⟩
    rw [operatorLexeme?_eq hnew, ← List.cons_append, hfind]
    rfl

/-! ## All tokens -/

theorem fractionLength_eq_zero_iff :
    fractionLength cs = 0 ↔ ¬ (cs.head? = some '.' ∧ cs.tail.head?.any isDigit = true) := by
  unfold fractionLength
  split
  · rename_i d ds
    cases hd : isDigit d with
    | false => simp [hd]
    | true => simp [hd]
  · rename_i hnone
    refine ⟨fun _ => ?_, fun _ => rfl⟩
    rintro ⟨hpoint, hdigit⟩
    obtain ⟨ds, rfl⟩ := List.head?_eq_some_iff.mp hpoint
    cases ds with
    | nil => exact absurd hdigit Bool.false_ne_true
    | cons d ds => exact hnone d ds rfl

theorem takeWhile_append_eq {p : Char → Bool} (h : runLength p cs = cs.length) (h' : Starts (!p ·) rest) :
    (cs ++ rest).takeWhile p = cs := by
  rw [← take_runLength, runLength_append h', h, List.take_left]

/-- A run that ends where another text starts ends as well where one starts with the same character. -/
theorem runLength_stable {p : Char → Bool} (h : runLength p (cs ++ rest) = cs.length)
    (hhead : rest'.head? = rest.head?) : runLength p (cs ++ rest') = cs.length := by
  obtain ⟨hall, hend⟩ := runLength_append_eq h
  have hend' : Starts (!p ·) rest' := by
    unfold Starts
    rw [hhead]
    exact hend
  rw [runLength_append hend', hall]

/-- A word is the same in front of all texts that continue no word. -/
theorem wordLexeme_append (h' : EndsWord rest')
    (h : wordLexeme before c (cs ++ rest) = ⟨.ok k, cs.length + 1⟩) :
    wordLexeme before c (cs ++ rest') = ⟨.ok k, cs.length + 1⟩ := by
  obtain ⟨hall, hrest⟩ := runLength_append_eq (Nat.succ.inj (congrArg Lexeme.length h))
  unfold wordLexeme at h ⊢
  rw [takeWhile_append_eq hall hrest] at h
  rw [takeWhile_append_eq hall h']
  exact h

/-- A string is the same whatever follows. -/
theorem stringLexeme_append {quote : Char} (h : stringLexeme quote (cs ++ rest) = ⟨.ok k, cs.length + 1⟩) :
    stringLexeme quote (cs ++ rest') = ⟨.ok k, cs.length + 1⟩ := by
  simp only [stringLexeme] at h ⊢
  split at h
  · rename_i hquote
    have hlen : stringLength quote false (cs ++ rest) + 2 = cs.length + 1 := congrArg Lexeme.length h
    have hlt : stringLength quote false (cs ++ rest) < cs.length := by omega
    obtain ⟨d, ds, hdrop⟩ : ∃ d ds, cs.drop (stringLength quote false (cs ++ rest)) = d :: ds := by
      refine List.exists_cons_of_ne_nil fun hnil => ?_
      rw [List.drop_eq_nil_iff] at hnil
      omega
    rw [stringLength_append hlt]
    rw [List.drop_append_of_le_length (Nat.le_of_lt hlt), hdrop] at hquote ⊢
    exact (if_pos hquote).trans h
  · exact absurd (congrArg Lexeme.kind h) (by simp)

/-- A template string is the same whatever follows. -/
theorem templateLexeme_append (h : templateLexeme (cs ++ rest) = ⟨.ok k, cs.length + 1⟩) :
    templateLexeme (cs ++ rest') = ⟨.ok k, cs.length + 1⟩ := by
  unfold templateLexeme at h ⊢
  split at h
  · rename_i n hn
    obtain rfl : n = cs.length := Nat.succ.inj (congrArg Lexeme.length h)
    rw [templateLength?_take hn (by rw [List.take_left, List.take_left])]
    exact h
  · exact absurd (congrArg Lexeme.kind h) (by simp)

/-- No operator starts like a word. -/
theorem operatorLexeme?_word (h : isWordStart c = true) : operatorLexeme? c cs = none := by
  have hall : (operators.all fun op => op.1.head?.all fun d => !isWordStart d) = true := by decide
  have hstart : ∀ op ∈ operators, ∀ d ∈ op.1.head?, isWordStart d = false := by
    intro op hop d hd
    simpa [Option.mem_def.mp hd] using List.all_eq_true.mp hall op hop
  have hnone : operators.find? (fun op => op.1.isPrefixOf (c :: cs)) = none := by
    refine List.find?_eq_none.mpr fun op hop hprefix => ?_
    obtain ⟨d, ds, hchars⟩ := List.exists_cons_of_ne_nil (operators_ne_nil op hop)
    rw [hchars, List.isPrefixOf_iff_prefix] at hprefix
    obtain rfl := (List.cons_prefix_cons.mp hprefix).1
    rw [hstart op hop d (by rw [hchars]; rfl)] at h
    exact absurd h Bool.false_ne_true
  rw [operatorLexeme?_eq, hnone]
  · rfl
  · rintro rfl
    exact absurd h (by decide)

/-- A comment between slashes and stars, given the characters after its first slash. -/
def commentLexeme (cs : List Char) : Lexeme :=
  match blockCommentLength? cs.tail with
  | some n => ⟨.ok .blockComment, n + 2⟩
  | none => ⟨.error "unclosed block comment", cs.length + 1⟩

/-- A comment is the same whatever follows. -/
theorem commentLexeme_append (h : commentLexeme (cs ++ rest) = ⟨.ok k, cs.length + 1⟩) :
    commentLexeme (cs ++ rest') = ⟨.ok k, cs.length + 1⟩ := by
  unfold commentLexeme at h ⊢
  split at h
  · rename_i n hn
    have hlen : n + 2 = cs.length + 1 := congrArg Lexeme.length h
    cases cs with
    | nil => exact absurd hlen (by simp)
    | cons d ds =>
        obtain rfl : n = ds.length := Nat.add_right_cancel hlen
        have hsame : ((d :: ds ++ rest').tail).take ds.length = ((d :: ds ++ rest).tail).take ds.length := by
          rw [List.cons_append, List.cons_append, List.tail_cons, List.tail_cons, List.take_left, List.take_left]
        rw [blockCommentLength?_take hn hsame]
        exact h
  · exact absurd (congrArg Lexeme.kind h) (by simp)

/-- A group of an embedded command that is closed belongs to it. -/
theorem embedGroups_kind {fuel length : Nat} (h : (embedGroups fuel length cs).kind = .ok k) : k = .embed := by
  induction fuel generalizing length cs with
  | zero => exact (Except.ok.inj h).symm
  | succ fuel ih =>
      unfold embedGroups at h
      split at h
      · split at h
        · exact absurd h (by simp)
        · exact ih h
      · split at h
        · exact absurd h (by simp)
        · exact ih h
      · split at h
        · exact absurd h (by simp)
        · exact (Except.ok.inj h).symm

theorem embedLexeme_kind (h : (embedLexeme cs).kind = .ok k) : k = .embed := by
  unfold embedLexeme at h
  split at h
  · exact embedGroups_kind h
  · split at h
    · exact embedGroups_kind h
    · split at h
      · exact embedGroups_kind h
      · split at h
        · split at h
          · exact absurd h (by simp)
          · exact embedGroups_kind h
        · exact embedGroups_kind h

/-- A word is an identifier up to whether it is reserved. -/
theorem wordLexeme_category (h : (wordLexeme before c cs).kind = .ok k) :
    k.category = .ident := by
  have hreserved : ∀ {word : String} {l}, reservedWord? word = some l → l.category = .ident := by
    intro word l hl
    unfold reservedWord? at hl
    split at hl <;> first
      | obtain rfl := Option.some.inj hl
        rfl
      | exact absurd hl (Option.some_ne_none l).symm
  have hk := Except.ok.inj h
  split at hk
  · exact hk ▸ rfl
  · cases hword : reservedWord? (String.ofList (c :: cs.takeWhile isWordPart)) with
    | none =>
        rw [hword] at hk
        exact hk ▸ rfl
    | some l =>
        rw [hword] at hk
        exact hk ▸ hreserved hword

/-! ## Where a token may become longer -/

/-- One slash alone is no comment. -/
theorem lexeme_slash (h : lexeme before '/' cs = ⟨.ok k, 1⟩) :
    cs.head? ≠ some '/' ∧ cs.head? ≠ some '*' := by
  have hwhite : isWhitespace '/' = false := by decide
  constructor <;> intro hhead <;> obtain ⟨ds, rfl⟩ := List.head?_eq_some_iff.mp hhead
  · have hrun : runLength (fun d => !isNewline d) ('/' :: ds) = _ := runLength_cons _ (by decide)
    simp [lexeme, hwhite, hrun] at h
  · simp only [lexeme, hwhite] at h
    simp at h
    split at h <;> simp_all

/-- One dot alone is not followed by a digit. -/
theorem lexeme_dot (h : lexeme before '.' cs = ⟨.ok k, 1⟩) :
    cs.head?.any isDigit = false := by
  cases hdigit : cs.head?.any isDigit with
  | false => rfl
  | true =>
      have hwhite : isWhitespace '.' = false := by decide
      have hnumber : lexeme before '.' cs = numberLexeme '.' cs := by simp [lexeme, hwhite, hdigit]
      obtain ⟨_, _, d, hd, hword⟩ := numberLexeme_isNumber (c := '.') (.inr hdigit) k
        (by rw [← hnumber, h])
      rw [← hnumber, h] at hd
      obtain rfl : '.' = d := Option.some.inj hd
      exact absurd hword (by decide)

/-- In front of an agreeing text a token does not become a comment. -/
theorem slash_stable {d : Char}
    (h : lexeme before c (cs ++ rest) = ⟨.ok k, cs.length + 1⟩) (hagree : Agree rest rest')
    (hd : d = '/' ∨ d = '*') :
    (c == '/' && (cs ++ rest').head? == some d) = (c == '/' && (cs ++ rest).head? == some d) := by
  cases cs with
  | cons e es => rfl
  | nil =>
      rw [List.nil_append, List.nil_append]
      rcases hagree.head with hhead | hcalm
      · rw [hhead]
      · -- neither text starts with a character that would make a comment of a slash
        have hnew : (rest'.head? == some d) = false := by
          refine beq_eq_false_iff_ne.mpr fun hhead => ?_
          have hcalm := hcalm d hhead
          rcases hd with rfl | rfl <;> exact absurd hcalm (by decide)
        rw [hnew, Bool.and_false]
        by_cases hc : c = '/'
        · subst hc
          obtain ⟨hslash, hstar⟩ := lexeme_slash h
          have hold : (rest.head? == some d) = false := by
            refine beq_eq_false_iff_ne.mpr fun hhead => ?_
            rcases hd with rfl | rfl
            · exact hslash hhead
            · exact hstar hhead
          rw [hold, Bool.and_false]
        · rw [beq_eq_false_iff_ne.mpr hc, Bool.false_and]

/-- Nor does it become a number. -/
theorem dot_stable (h : lexeme before c (cs ++ rest) = ⟨.ok k, cs.length + 1⟩)
    (hagree : Agree rest rest') :
    (c == '.' && (cs ++ rest').head?.any isDigit) = (c == '.' && (cs ++ rest).head?.any isDigit) := by
  cases cs with
  | cons e es => rfl
  | nil =>
      by_cases hc : c = '.'
      · subst hc
        have hold := lexeme_dot h
        rw [List.nil_append] at hold ⊢
        rw [List.nil_append, hold, hagree.digit hold]
      · rw [beq_eq_false_iff_ne.mpr hc, Bool.false_and, Bool.false_and]

/-! ## All tokens -/

/-- **A token stays what it is in front of an agreeing text.**  Behind a word or a number that text must not
go on with a word, and white space and line comments must end where they did. -/
theorem lexeme_stable (h : lexeme before c (cs ++ rest) = ⟨.ok k, cs.length + 1⟩)
    (hk : k ≠ .embed) (hagree : Agree rest rest')
    (hword : k.category = .ident ∨ k = .number → EndsWord rest')
    (hspace : k = .space ∨ k = .lineComment → rest'.head? = rest.head?) :
    lexeme before c (cs ++ rest') = ⟨.ok k, cs.length + 1⟩ := by
  have hlexeme := h
  unfold lexeme at h ⊢
  rw [slash_stable hlexeme hagree (.inl rfl), slash_stable hlexeme hagree (.inr rfl), dot_stable hlexeme hagree]
  split at h
  · rename_i hc
    obtain ⟨hkind, hlen⟩ := Lexeme.mk.inj h
    obtain rfl := Except.ok.inj hkind
    rw [if_pos hc, runLength_stable (Nat.succ.inj hlen) (hspace (.inl rfl))]
  rename_i hwhite
  rw [if_neg hwhite]
  split at h
  · rename_i hc
    obtain ⟨hkind, hlen⟩ := Lexeme.mk.inj h
    obtain rfl := Except.ok.inj hkind
    rw [if_pos hc, runLength_stable (Nat.succ.inj hlen) (hspace (.inr rfl))]
  rename_i hline
  rw [if_neg hline]
  split at h
  · rename_i hc
    rw [if_pos hc]
    exact commentLexeme_append h
  rename_i hblock
  rw [if_neg hblock]
  split at h
  · exact absurd (embedLexeme_kind (congrArg Lexeme.kind h)) hk
  rename_i hsigil
  rw [if_neg hsigil]
  split at h
  · rename_i hc
    rw [if_pos hc]
    exact stringLexeme_append h
  rename_i hquote
  rw [if_neg hquote]
  split at h
  · rename_i hc
    rw [if_pos hc]
    exact templateLexeme_append h
  rename_i htick
  rw [if_neg htick]
  split at h
  · rename_i hc
    rw [if_pos hc]
    have hstart : isDigit c = true ∨ (cs ++ rest).head?.any isDigit = true :=
      (Bool.or_eq_true_iff.mp hc).imp id fun hdot => (Bool.and_eq_true_iff.mp hdot).2
    obtain ⟨rfl, _⟩ := numberLexeme_isNumber hstart k (congrArg Lexeme.kind h)
    refine numberLexeme_append (numberLexeme_endsWord h) (hword (.inr rfl)) (fun hfraction => ?_) h
    rw [fractionLength_eq_zero_iff] at hfraction ⊢
    exact hagree.point hfraction
  rename_i hnumber
  rw [if_neg hnumber]
  split at h
  · rename_i token htoken
    subst h
    rw [operatorLexeme?_append hagree htoken]
  · split at h
    · rename_i hnone hstart
      rw [operatorLexeme?_word hstart]
      dsimp only
      rw [if_pos hstart]
      exact wordLexeme_append (hword (.inl (wordLexeme_category (congrArg Lexeme.kind h)))) h
    · exact absurd (congrArg Lexeme.kind h) (by simp)

/-! ## Words and numbers -/

/-- A character that can stand in a word, as its first or behind it. -/
def IsWordChar (c : Char) : Prop :=
  isWordStart c = true ∨ isWordPart c = true

instance (c : Char) : Decidable (IsWordChar c) :=
  inferInstanceAs (Decidable (_ ∨ _))

/-- No word starts with a digit. -/
theorem isWordStart_of_isDigit (h : isDigit c = true) : isWordStart c = false := by
  have hnone : ∀ n ∈ List.range' 48 10, isWordStart (Char.ofNat n) = false := by decide +kernel
  have hmem : c.toNat ∈ List.range' 48 10 := by
    simp only [isDigit, Bool.and_eq_true, decide_eq_true_eq] at h
    have hlow : ('0' : Char).toNat ≤ c.toNat := h.1
    have hhigh : c.toNat ≤ ('9' : Char).toNat := h.2
    rw [List.mem_range'_1]
    exact ⟨hlow, Nat.lt_succ_of_le hhigh⟩
  have hstart := hnone c.toNat hmem
  rwa [Char.ofNat_toNat] at hstart

/-- An operator is neither a word nor a number. -/
theorem operatorLexeme?_kind (h : operatorLexeme? c cs = some ⟨.ok k, n⟩) :
    ¬ (k.category = .ident ∨ k = .number) := by
  have htable : ∀ op ∈ operators, ¬ (op.2.category = .ident ∨ op.2 = .number) := by decide
  by_cases hmark : c = '?' ∧ cs.head? = some '.' ∧ cs.tail.head?.any isDigit = true
  · obtain ⟨rfl, hpoint, hdigit⟩ := hmark
    obtain ⟨ds, rfl⟩ := List.head?_eq_some_iff.mp hpoint
    have hquestion := h.symm.trans (operatorLexeme?_point hdigit)
    obtain rfl := Except.ok.inj (congrArg Lexeme.kind (Option.some.inj hquestion))
    decide
  · rw [operatorLexeme?_eq fun hc hpoint => hmark ⟨hc, hpoint⟩] at h
    obtain ⟨op, hfind, hop⟩ := Option.map_eq_some_iff.mp h
    obtain rfl := Except.ok.inj (congrArg Lexeme.kind hop)
    exact htable op (List.mem_of_find?_eq_some hfind)

/-- Words and numbers are read as what they are. -/
theorem lexeme_word (h : lexeme before c cs = ⟨.ok k, n⟩) (hk : k.category = .ident ∨ k = .number) :
    isWordStart c = true ∧ wordLexeme before c cs = ⟨.ok k, n⟩ ∨
      (isDigit c = true ∨ cs.head?.any isDigit = true) ∧ numberLexeme c cs = ⟨.ok k, n⟩ := by
  have hno : ∀ {l : ScriptKind} {m}, (⟨.ok l, m⟩ : Lexeme) = ⟨.ok k, n⟩ →
      ¬ (l.category = .ident ∨ l = .number) → False := by
    intro l m hl hne
    obtain rfl := Except.ok.inj (congrArg Lexeme.kind hl)
    exact hne hk
  unfold lexeme at h
  split at h
  · exact (hno h (by decide)).elim
  split at h
  · exact (hno h (by decide)).elim
  split at h
  · split at h
    · exact (hno h (by decide)).elim
    · exact absurd (congrArg Lexeme.kind h) (by simp)
  split at h
  · obtain rfl := embedLexeme_kind (congrArg Lexeme.kind h)
    exact absurd hk (by decide)
  split at h
  · simp only [stringLexeme] at h
    split at h
    · exact (hno h (by decide)).elim
    · exact absurd (congrArg Lexeme.kind h) (by simp)
  split at h
  · simp only [templateLexeme] at h
    split at h
    · exact (hno h (by decide)).elim
    · exact absurd (congrArg Lexeme.kind h) (by simp)
  split at h
  · rename_i hc
    exact .inr ⟨(Bool.or_eq_true_iff.mp hc).imp id fun hdot => (Bool.and_eq_true_iff.mp hdot).2, h⟩
  · split at h
    · rename_i token htoken
      rw [h] at htoken
      exact absurd hk (operatorLexeme?_kind htoken)
    · split at h
      · rename_i hstart
        exact .inl ⟨hstart, h⟩
      · exact absurd (congrArg Lexeme.kind h) (by simp)

/-- No word goes on behind a word or a number. -/
theorem lexeme_endsWord (h : lexeme before c (cs ++ rest) = ⟨.ok k, cs.length + 1⟩)
    (hk : k.category = .ident ∨ k = .number) : EndsWord rest := by
  rcases lexeme_word h hk with ⟨_, hword⟩ | ⟨_, hnumber⟩
  · exact (runLength_append_eq (Nat.succ.inj (congrArg Lexeme.length hword))).2
  · exact numberLexeme_endsWord hnumber

/-- Words and numbers end in a character of a word. -/
theorem lexeme_word_ends (h : lexeme before c cs = ⟨.ok k, n⟩) (hk : k.category = .ident ∨ k = .number) :
    Ends IsWordChar (c :: cs) n := by
  have hpart : ∀ d, IsWordPart d → IsWordChar d := fun _ => .inr
  rcases lexeme_word h hk with ⟨hstart, hword⟩ | ⟨hstart, hnumber⟩
  · have hfirst : Ends IsWordChar (c :: cs) 1 := .head (.inl hstart)
    have hall := hfirst.append_run (p := isWordPart) hpart
    obtain rfl : 1 + runLength isWordPart cs = n := by
      rw [Nat.add_comm]
      exact congrArg Lexeme.length hword
    exact hall
  · obtain ⟨_, hends⟩ := numberLexeme_isNumber hstart k (congrArg Lexeme.kind hnumber)
    rw [hnumber] at hends
    exact hends.mono hpart

/-! ## Tokens that end where they close -/

/-- The characters that quote a string or template, or close a bracket. -/
def closers : List Char :=
  ['\x22', '\x27', '\x60', ')', ']', '}']

/-- A character that starts a token which ends where it closes, or a word. -/
def Closes (c : Char) : Prop :=
  isWordStart c = true ∨ c ∈ closers

theorem lexeme_wordStart (h : isWordStart c = true) (cs : List Char) :
    lexeme before c cs = wordLexeme before c cs := by
  have hne : ∀ d, isWordStart d = false → (c == d) = false := by
    intro d hd
    refine beq_eq_false_iff_ne.mpr ?_
    rintro rfl
    rw [hd] at h
    exact absurd h Bool.false_ne_true
  have hdigit : isDigit c = false := by
    cases hd : isDigit c with
    | false => rfl
    | true =>
        rw [isWordStart_of_isDigit hd] at h
        exact absurd h Bool.false_ne_true
  have hwhite := (isWordStart_plain h).2.2
  simp only [lexeme, hwhite, hne '/' (by decide), hne '@' (by decide), hne '#' (by decide),
    hne '\x22' (by decide), hne '\x27' (by decide), hne '\x60' (by decide), hne '.' (by decide), hdigit,
    operatorLexeme?_word h, h, Bool.false_and, Bool.or_self, Bool.false_eq_true, if_false, if_true]

/-- A token that closes is the same whatever follows, unless it is a word that goes on. -/
theorem lexeme_closed (hc : Closes c) (h : lexeme before c (cs ++ rest) = ⟨.ok k, cs.length + 1⟩)
    (hword : isWordStart c = true → EndsWord rest') :
    lexeme before c (cs ++ rest') = ⟨.ok k, cs.length + 1⟩ := by
  rcases hc with hstart | hc
  · rw [lexeme_wordStart hstart] at h ⊢
    exact wordLexeme_append (hword hstart) h
  · have hquote : ∀ {q}, stringLexeme q (cs ++ rest) = ⟨.ok k, cs.length + 1⟩ →
        stringLexeme q (cs ++ rest') = ⟨.ok k, cs.length + 1⟩ := stringLexeme_append
    simp only [closers, List.mem_cons, List.not_mem_nil, or_false] at hc
    rcases hc with rfl | rfl | rfl | rfl | rfl | rfl
    · exact hquote h
    · exact hquote h
    · exact templateLexeme_append (show templateLexeme (cs ++ rest) = _ from h)
    · exact h
    · exact h
    · exact h

end ComponentMarkup.Script
