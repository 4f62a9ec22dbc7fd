import ComponentMarkup.Proofs.Script.TokenLength

/-!
# How tokens end

A token ends in a dot only if it is made of dots, or is the mark of an optional chain; only the comma ends in a
comma; and no token but white space ends in white space.  So the last characters before a word tell whether a
dot stands before it, and those of a list whether a comma ends it.

* `Ends` — the last of the first characters of a text is of a class;
* `TokenShape` — what the characters of a token are like, by its kind;
* `lexeme_shape` — every token is of the shape of its kind.
-/

namespace ComponentMarkup.Text

/-- A character that is neither a dot, nor a comma, nor white space. -/
def IsPlain (c : Char) : Prop :=
  c ≠ '.' ∧ c ≠ ',' ∧ isWhitespace c = false

instance (c : Char) : Decidable (IsPlain c) :=
  inferInstanceAs (Decidable (_ ∧ _ ∧ _))

/-- A character that can stand in a word behind the first. -/
def IsWordPart (c : Char) : Prop :=
  isWordPart c = true

instance (c : Char) : Decidable (IsWordPart c) :=
  inferInstanceAs (Decidable (_ = true))

/-- The last of the first `n` characters of a text is of a class. -/
def Ends (P : Char → Prop) (cs : List Char) (n : Nat) : Prop :=
  1 ≤ n ∧ ∃ c, cs[n - 1]? = some c ∧ P c

variable {P : Char → Prop} {cs : List Char} {n : Nat}

theorem Ends.mono {Q : Char → Prop} (hPQ : ∀ c, P c → Q c) (h : Ends P cs n) : Ends Q cs n := by
  obtain ⟨hpos, c, hc, hP⟩ := h
  exact ⟨hpos, c, hc, hPQ c hP⟩

theorem Ends.head {c : Char} (h : P c) : Ends P (c :: cs) 1 :=
  ⟨Nat.le_refl 1, c, rfl, h⟩

/-- Characters may be put in front. -/
theorem Ends.drop {m : Nat} (h : Ends P (cs.drop n) m) : Ends P cs (n + m) := by
  obtain ⟨hpos, c, hc, hP⟩ := h
  refine ⟨by omega, c, ?_, hP⟩
  rw [List.getElem?_drop] at hc
  rw [← hc]
  congr 1
  omega

theorem Ends.cons {c : Char} (h : Ends P cs n) : Ends P (c :: cs) (n + 1) := by
  have hdrop : Ends P ((c :: cs).drop 1) n := h
  rw [Nat.add_comm]
  exact hdrop.drop

/-- A run of characters of the class, if it is not empty, ends in one of them. -/
theorem Ends.run {p : Char → Bool} (hp : ∀ c, p c = true → P c) (hpos : 0 < runLength p cs) :
    Ends P cs (runLength p cs) := by
  obtain ⟨rest, hrest⟩ := List.takeWhile_prefix p (l := cs)
  have hlast : runLength p cs - 1 < (cs.takeWhile p).length := by
    unfold runLength at hpos ⊢
    omega
  have hget : ∀ i, i < (cs.takeWhile p).length → cs[i]? = (cs.takeWhile p)[i]? := by
    intro i hi
    rw [← List.getElem?_append_left hi, hrest]
  have hall : (cs.takeWhile p).all p = true := List.all_takeWhile
  refine ⟨hpos, _, (hget _ hlast).trans (List.getElem?_eq_getElem hlast), hp _ ?_⟩
  exact List.all_eq_true.mp hall _ (List.getElem_mem hlast)

theorem take_runLength (p : Char → Bool) (cs : List Char) :
    cs.take (runLength p cs) = cs.takeWhile p :=
  (List.prefix_iff_eq_take.mp (List.takeWhile_prefix p)).symm

/-- A run of characters of the class keeps the end of what stands before it. -/
theorem Ends.append_run {p : Char → Bool} (hp : ∀ c, p c = true → P c) (h : Ends P cs n) :
    Ends P cs (n + runLength p (cs.drop n)) := by
  cases hrun : runLength p (cs.drop n) with
  | zero => exact h
  | succ m =>
      have hpos : 0 < runLength p (cs.drop n) := by omega
      have hends := Ends.run hp hpos
      rw [hrun] at hends
      exact hends.drop

/-- A character of the class at the place where the counted ones end. -/
theorem Ends.next {c : Char} (hc : (cs.drop n).head? = some c) (hP : P c) : Ends P cs (n + 1) := by
  refine ⟨Nat.le_add_left 1 n, c, ?_, hP⟩
  rwa [List.head?_drop] at hc

/-- Read backwards, the counted characters start with one of the class. -/
theorem Ends.reverse_take (h : Ends P cs n) : ∃ c before, (cs.take n).reverse = c :: before ∧ P c := by
  obtain ⟨hpos, c, hc, hP⟩ := h
  obtain ⟨m, rfl⟩ : ∃ m, n = m + 1 := ⟨n - 1, by omega⟩
  rw [Nat.add_sub_cancel] at hc
  refine ⟨c, (cs.take m).reverse, ?_, hP⟩
  rw [List.take_add_one, hc, List.reverse_append]
  rfl

/-! ## Plain characters -/

/-- The numbers of the characters of white space. -/
def whiteScalars : List Nat :=
  [0x09, 0x0A, 0x0B, 0x0C, 0x0D, 0x20, 0x85, 0xA0, 0x1680, 0x2000, 0x2001, 0x2002, 0x2003, 0x2004, 0x2005,
    0x2006, 0x2007, 0x2008, 0x2009, 0x200A, 0x2028, 0x2029, 0x202F, 0x205F, 0x3000]

theorem mem_whiteScalars {c : Char} (h : isWhitespace c = true) : c.toNat ∈ whiteScalars := by
  simp only [isWhitespace, Bool.or_eq_true, Bool.and_eq_true, decide_eq_true_eq, beq_iff_eq] at h
  simp only [whiteScalars, List.mem_cons, List.not_mem_nil, or_false]
  omega

/-- No white space continues a word. -/
theorem isWordPart_of_isWhitespace {c : Char} (h : isWhitespace c = true) : isWordPart c = false := by
  have hnone : ∀ n ∈ whiteScalars, isWordPart (Char.ofNat n) = false := by decide +kernel
  have hpart := hnone c.toNat (mem_whiteScalars h)
  rwa [Char.ofNat_toNat] at hpart

/-- A character of a word is plain. -/
theorem isWordPart_plain {c : Char} (h : IsWordPart c) : IsPlain c := by
  unfold IsWordPart at h
  refine ⟨?_, ?_, ?_⟩
  · rintro rfl
    exact absurd h (by decide)
  · rintro rfl
    exact absurd h (by decide)
  · cases hwhite : isWhitespace c with
    | false => rfl
    | true =>
        rw [isWordPart_of_isWhitespace hwhite] at h
        exact absurd h Bool.false_ne_true

theorem isDigit_word {c : Char} (h : isDigit c = true) : IsWordPart c := by
  simp [IsWordPart, isWordPart, h]

/-- A first character of a word is plain. -/
theorem isWordStart_plain {c : Char} (h : isWordStart c = true) : IsPlain c := by
  have hnone : ∀ n ∈ whiteScalars, isWordStart (Char.ofNat n) = false := by decide +kernel
  refine ⟨?_, ?_, ?_⟩
  · rintro rfl
    exact absurd h (by decide)
  · rintro rfl
    exact absurd h (by decide)
  · cases hwhite : isWhitespace c with
    | false => rfl
    | true =>
        have hstart := hnone c.toNat (mem_whiteScalars hwhite)
        rw [Char.ofNat_toNat, h] at hstart
        exact absurd hstart (Ne.symm Bool.false_ne_true)

/-! ## Brackets -/

/-- A plain character stands at a place of a text. -/
def PlainAt (cs : List Char) (n : Nat) : Prop :=
  ∃ c, cs[n]? = some c ∧ IsPlain c

theorem PlainAt.head {c : Char} (h : IsPlain c) : PlainAt (c :: cs) 0 :=
  ⟨c, rfl, h⟩

theorem PlainAt.cons {c : Char} (h : PlainAt cs n) : PlainAt (c :: cs) (n + 1) :=
  h

/-- What closes a group is a bracket. -/
theorem closingBracket?_plain {opened : List Bracket} {state : GroupState} {cs : List Char} {n : Nat}
    (h : closingBracket? opened state cs = some n) : PlainAt cs n := by
  have hplain : ∀ c b, Bracket.closedBy? c = some b → IsPlain c := by
    intro c b hc
    unfold Bracket.closedBy? at hc
    split at hc
    · rename_i h; obtain rfl := beq_iff_eq.mp h; decide
    split at hc
    · rename_i h; obtain rfl := beq_iff_eq.mp h; decide
    split at hc
    · rename_i h; obtain rfl := beq_iff_eq.mp h; decide
    · exact absurd hc (by simp)
  fun_induction closingBracket? opened state cs generalizing n <;>
    grind [Option.map_eq_some_iff, PlainAt.head, PlainAt.cons]

/-- What closes a body is a brace. -/
theorem closingBrace?_plain {depth : Nat} {cs : List Char} {n : Nat}
    (h : closingBrace? depth cs = some n) : PlainAt cs n := by
  have hbrace : IsPlain '}' := by decide
  fun_induction closingBrace? depth cs generalizing n <;>
    grind [Option.map_eq_some_iff, PlainAt.head, PlainAt.cons]

end ComponentMarkup.Text

namespace ComponentMarkup.Script

open ComponentMarkup.Text ComponentMarkup.Tree

variable {k : ScriptKind} {c : Char} {cs : List Char} {n : Nat}

/-! ## The shape of tokens -/

/-- What the first `n` characters of a text are like if they are a token of a kind. -/
def TokenShape (k : ScriptKind) (cs : List Char) (n : Nat) : Prop :=
  match k with
  | .space => ∀ c ∈ cs.take n, isWhitespace c = true
  | .lineComment => ∃ rest, cs.take n = '/' :: '/' :: rest
  | .blockComment => Ends (· = '/') cs n
  | .dot => cs.take n = ['.']
  | .dots => cs.take n = ['.', '.', '.']
  | .questionDot => cs.take n = ['?', '.']
  | .comma => cs.take n = [',']
  | _ => Ends IsPlain cs n

/-- The kinds of tokens that do not end in a plain character. -/
def specialEnd : List ScriptKind :=
  [.space, .lineComment, .blockComment, .dot, .dots, .questionDot, .comma]

theorem TokenShape.of_plain (hk : k ∉ specialEnd) (h : Ends IsPlain cs n) : TokenShape k cs n := by
  unfold TokenShape
  split <;> simp_all [specialEnd]

/-- A reading is of the shape of its kind, if it has one. -/
def Lexeme.Shaped (token : Lexeme) (cs : List Char) : Prop :=
  ∀ k, token.kind = .ok k → TokenShape k cs token.length

theorem Lexeme.Shaped.error {message : String} {n : Nat} : (⟨.error message, n⟩ : Lexeme).Shaped cs :=
  fun _ h => absurd h (by simp)

theorem Lexeme.Shaped.ok (h : TokenShape k cs n) : (⟨.ok k, n⟩ : Lexeme).Shaped cs := by
  intro l hl
  obtain rfl := Except.ok.inj hl
  exact h

theorem Lexeme.Shaped.plain (hk : k ∉ specialEnd) (h : Ends IsPlain cs n) :
    (⟨.ok k, n⟩ : Lexeme).Shaped cs :=
  .ok (.of_plain hk h)

/-! ## Numbers -/

theorem isNumeral_word (h : isNumeral c = true) : IsWordPart c := by
  unfold isNumeral at h
  rcases Bool.or_eq_true_iff.mp h with h | h
  · exact isDigit_word h
  · obtain rfl := beq_iff_eq.mp h
    decide

theorem isRadixDigit_word (h : (isHexDigit c || c == '_') = true) : IsWordPart c := by
  have hlower : c ≤ 'f' → c ≤ 'z' := fun hc => Char.le_trans hc (by decide)
  have hupper : c ≤ 'F' → c ≤ 'Z' := fun hc => Char.le_trans hc (by decide)
  unfold IsWordPart
  simp only [isHexDigit, isWordPart, isLetter, Bool.or_eq_true, Bool.and_eq_true, decide_eq_true_eq,
    beq_iff_eq] at h ⊢
  grind

/-- A reading that is a number, if it is no fault, and ends like a word. -/
def Lexeme.IsNumber (token : Lexeme) (cs : List Char) : Prop :=
  ∀ k, token.kind = .ok k → k = .number ∧ Ends IsWordPart cs token.length

/-- The end of a number is that of its digits or the mark behind them. -/
theorem numberEnd_isNumber (h : Ends IsWordPart cs n) : (numberEnd n (cs.drop n)).IsNumber cs := by
  have hmark : IsWordPart 'n' := by decide
  have hall : Ends IsWordPart cs (n + if (cs.drop n).head? == some 'n' then 1 else 0) := by
    split
    · rename_i hn
      exact .next (beq_iff_eq.mp hn) hmark
    · exact h
  unfold numberEnd
  dsimp only
  generalize (if (cs.drop n).head? == some 'n' then 1 else 0) = mark at hall ⊢
  split
  · intro k hk
    exact ⟨(Except.ok.inj hk).symm, hall⟩
  · exact fun k hk => absurd hk (by simp)

/-- A fraction ends in a digit or an underscore. -/
theorem fractionLength_ends (h : Ends IsWordPart cs n) :
    Ends IsWordPart cs (n + fractionLength (cs.drop n)) := by
  unfold fractionLength
  split
  · rename_i d ds hdrop
    split
    · rename_i hd
      have hpos : 0 < runLength isNumeral (d :: ds) := by
        rw [runLength_cons _ (by simp [isNumeral, hd])]
        exact Nat.succ_pos _
      have hrun := Ends.run (fun _ => isNumeral_word) hpos
      have hall := (hrun.cons (c := '.'))
      rw [← hdrop, Nat.add_comm] at hall
      exact hall.drop
    · exact h
  · exact h

/-- An exponent ends in a digit. -/
theorem exponentLength_ends {m : Nat} (h : Ends IsWordPart cs n)
    (hm : exponentLength (cs.drop n) = .ok m) : Ends IsWordPart cs (n + m) := by
  cases hdrop : cs.drop n with
  | nil =>
      rw [hdrop, exponentLength] at hm
      obtain rfl := Except.ok.inj hm
      exact h
  | cons c ds =>
      rw [hdrop] at hm
      unfold exponentLength at hm
      dsimp only at hm
      generalize (if ds.head? == some '+' || ds.head? == some '-' then 1 else 0) = sign at hm
      split at hm
      · split at hm
        · exact absurd hm (by simp)
        · rename_i hdigits
          obtain rfl := Except.ok.inj hm
          have hrun := (Ends.run (fun _ => isDigit_word) (Nat.pos_of_ne_zero hdigits)).drop.cons (c := c)
          rw [← hdrop, Nat.add_comm _ 1, ← Nat.add_assoc] at hrun
          exact hrun.drop
      · obtain rfl := Except.ok.inj hm
        exact h

/-- A number ends in a digit or a letter. -/
theorem numberLexeme_isNumber (hstart : isDigit c = true ∨ cs.head?.any isDigit = true) :
    (numberLexeme c cs).IsNumber (c :: cs) := by
  simp only [numberLexeme]
  split
  · rename_i hradix
    -- the letter of the radix can stand in a word, and so can the digits behind it
    have hletter : ∃ d ds, cs = d :: ds ∧ IsWordPart d := by
      cases cs with
      | nil => simp at hradix
      | cons d ds =>
          refine ⟨d, ds, rfl, ?_⟩
          simp only [List.head?_cons, Option.any_some, Bool.and_eq_true, Bool.or_eq_true, beq_iff_eq] at hradix
          obtain ⟨_, (((((rfl | rfl) | rfl) | rfl) | rfl) | rfl)⟩ := hradix <;> decide
    obtain ⟨d, ds, rfl, hd⟩ := hletter
    have hletters : Ends IsWordPart (c :: d :: ds) 2 := (Ends.head hd).cons
    have hdigits := hletters.append_run (fun _ => isRadixDigit_word)
    have hend := numberEnd_isNumber hdigits
    rw [Nat.add_comm 2] at hend
    exact hend
  · -- a point in front of a number is followed by a digit
    have hwhole : Ends IsWordPart (c :: cs) (1 + runLength isNumeral cs) := by
      rcases hstart with hc | hd
      · exact (Ends.head (isDigit_word hc)).append_run (fun _ => isNumeral_word)
      · have hpos : 0 < runLength isNumeral cs := by
          cases cs with
          | nil => simp at hd
          | cons d ds =>
              have hnumeral : isNumeral d = true := by
                simp only [List.head?_cons, Option.any_some] at hd
                simp [isNumeral, hd]
              rw [runLength_cons _ hnumeral]
              exact Nat.succ_pos _
        have hrun := (Ends.run (fun _ => isNumeral_word) hpos).cons (c := c)
        rwa [Nat.add_comm] at hrun
    have hdrop : cs.drop (runLength isNumeral cs) = (c :: cs).drop (1 + runLength isNumeral cs) := by
      rw [Nat.add_comm, List.drop_succ_cons]
    have hfraction : Ends IsWordPart (c :: cs) (1 + runLength isNumeral cs +
        (if c == '.' then 0 else fractionLength (cs.drop (runLength isNumeral cs)))) := by
      split
      · exact hwhole
      · rw [hdrop]
        exact fractionLength_ends hwhole
    rw [hdrop] at hfraction ⊢
    generalize (if c == '.' then 0 else
      fractionLength ((c :: cs).drop (1 + runLength isNumeral cs))) = fraction at hfraction ⊢
    rw [List.drop_drop]
    split
    · exact fun k hk => absurd hk (by simp)
    · rename_i m hm
      rw [List.drop_drop]
      exact numberEnd_isNumber (exponentLength_ends hfraction hm)

/-- A number is of its shape. -/
theorem numberLexeme_shaped (hstart : isDigit c = true ∨ cs.head?.any isDigit = true) :
    (numberLexeme c cs).Shaped (c :: cs) := by
  intro k hk
  obtain ⟨rfl, hends⟩ := numberLexeme_isNumber hstart k hk
  exact .of_plain (by decide) (hends.mono fun _ => isWordPart_plain)

/-! ## Embedded commands -/

/-- An embedded command ends in its sigil, its name or a bracket. -/
theorem embedGroups_shaped (fuel : Nat) (h : Ends IsPlain cs n) :
    (embedGroups fuel n (cs.drop n)).Shaped cs := by
  induction fuel generalizing n with
  | zero => exact .plain (by decide) h
  | succ fuel ih =>
      -- behind a bracket that closes, the next group is read
      have hclosed : ∀ {opening : Char} {tail : List Char} {m : Nat}, cs.drop n = opening :: tail →
          (∃ c, tail[m]? = some c ∧ IsPlain c) →
          (embedGroups fuel (n + m + 2) (tail.drop (m + 1))).Shaped cs := by
        rintro opening tail m hdrop ⟨c, hc, hplain⟩
        have htail : tail.drop (m + 1) = cs.drop (n + m + 2) := by
          have hsplit : cs.drop (n + (m + 2)) = (cs.drop n).drop (m + 2) := List.drop_drop.symm
          rw [Nat.add_assoc, hsplit, hdrop]
          rfl
        have hends : Ends IsPlain (cs.drop n) (m + 2) := by
          rw [hdrop]
          exact (Ends.next (n := m) (by rwa [List.head?_drop]) hplain).cons
        rw [htail]
        exact ih hends.drop
      cases hdrop : cs.drop n with
      | nil =>
          simp only [embedGroups]
          split
          · exact .error
          · exact .plain (by decide) h
      | cons opening tail =>
          unfold embedGroups
          split
          · rename_i heq
            obtain ⟨rfl, rfl⟩ := List.cons.inj heq
            split
            · exact .error
            · rename_i m hm
              exact hclosed hdrop (closingBracket?_plain hm)
          · rename_i heq
            obtain ⟨rfl, rfl⟩ := List.cons.inj heq
            split
            · exact .error
            · rename_i m hm
              exact hclosed hdrop (closingBrace?_plain hm)
          · split
            · exact .error
            · exact .plain (by decide) h

theorem embedLexeme_shaped (hc : IsPlain c) : (embedLexeme cs).Shaped (c :: cs) := by
  have hsigil : Ends IsPlain (c :: cs) 1 := .head hc
  cases cs with
  | nil => exact embedGroups_shaped 1 hsigil
  | cons d tail =>
      have hname : ∀ {p : Char → Bool}, (∀ e, p e = true → IsPlain e) →
          (embedGroups ((d :: tail).length + 1) (1 + runLength p (d :: tail))
            ((d :: tail).drop (runLength p (d :: tail)))).Shaped (c :: d :: tail) := by
        intro p hp
        have hends := hsigil.append_run hp
        have hdrop : (d :: tail).drop (runLength p (d :: tail)) =
            (c :: d :: tail).drop (1 + runLength p (d :: tail)) := by
          rw [Nat.add_comm, List.drop_succ_cons]
        rw [hdrop]
        exact embedGroups_shaped _ hends
      simp only [embedLexeme]
      split
      · exact hname fun _ => isWordPart_plain
      split
      · exact hname fun _ h => isWordPart_plain (isDigit_word h)
      split
      · split
        · exact .error
        · rename_i m hm
          obtain ⟨e, he, hplain⟩ := closingBracket?_plain hm
          have hgroup : Ends IsPlain tail (m + 1) := .next (by rwa [List.head?_drop]) hplain
          exact embedGroups_shaped _ hgroup.cons.cons
      · exact embedGroups_shaped _ hsigil

/-! ## Comments, strings and operators -/

/-- A comment between slashes and stars ends in a slash. -/
theorem blockCommentLength?_ends (h : blockCommentLength? cs = some n) : Ends (· = '/') cs n := by
  fun_induction blockCommentLength? cs generalizing n with
  | case1 => exact absurd h (by simp)
  | case2 => obtain rfl := Option.some.inj h; exact ⟨by decide, '/', rfl, rfl⟩
  | case3 cs d hstop ih =>
      obtain ⟨m, hm, rfl⟩ := Option.map_eq_some_iff.mp h
      exact (ih hm).cons

/-- A template string ends in a backtick. -/
theorem templateLength?_ends {depth : Nat} (h : templateLength? depth cs = some n) :
    Ends IsPlain cs n := by
  have hquote : IsPlain '\x60' := by decide
  have hcons : ∀ {m d ds}, Ends IsPlain ds m → Ends IsPlain (d :: ds) (m + 1) := .cons
  fun_induction templateLength? depth cs generalizing n <;>
    grind [Option.map_eq_some_iff, Ends.head]

/-- A string ends in its quote. -/
theorem stringLexeme_shaped (hc : IsPlain c) : (stringLexeme c cs).Shaped (c :: cs) := by
  simp only [stringLexeme]
  split
  · rename_i hquote
    have hends : Ends IsPlain cs (stringLength c false cs + 1) := .next (beq_iff_eq.mp hquote) hc
    exact .plain (by decide) hends.cons
  · exact .error

/-- An equals sign behind an operator is plain. -/
theorem assignable_shaped (h : Ends IsPlain cs n) : (assignable n (cs.drop n)).Shaped cs := by
  have hequals : IsPlain '=' := by decide
  unfold assignable
  split
  · rename_i hhead
    exact .plain (by decide) (.next (beq_iff_eq.mp hhead) hequals)
  · exact .plain (by decide) h

/-- An operator is of its shape: those that end in a dot are the dot, the spread and the optional chain. -/
theorem operatorLexeme?_shaped {token : Lexeme} (h : operatorLexeme? c cs = some token) :
    token.Shaped (c :: cs) := by
  have hplain : ∀ {k cs n e}, k ∉ specialEnd → 1 ≤ n → cs[n - 1]? = some e → IsPlain e →
      (⟨.ok k, n⟩ : Lexeme).Shaped cs := fun hk hn he hP => .plain hk ⟨hn, _, he, hP⟩
  have hone : ∀ {a rest}, IsPlain a → (assignable 1 rest).Shaped (a :: rest) :=
    fun ha => assignable_shaped (.head ha)
  have htwo : ∀ {a b rest}, IsPlain b → (assignable 2 rest).Shaped (a :: b :: rest) :=
    fun hb => assignable_shaped (Ends.head hb).cons
  have hthree : ∀ {a b c rest}, IsPlain c → (assignable 3 rest).Shaped (a :: b :: c :: rest) :=
    fun hc => assignable_shaped (Ends.head hc).cons.cons
  unfold operatorLexeme? at h
  dsimp only at h
  split at h
  case h_12 =>
    split at h
    · obtain rfl := Option.some.inj h
      exact hplain (by decide) (by decide) rfl (by decide)
    · obtain rfl := Option.some.inj h
      exact .ok rfl
  all_goals
    first
    | obtain rfl := Option.some.inj h
      first
      | exact hplain (by decide) (by decide) rfl (by decide)
      | exact hone (by decide)
      | exact htwo (by decide)
      | exact hthree (by decide)
      | exact .ok rfl
    | exact absurd h (Option.some_ne_none token).symm

/-- A reserved word does not end in a special way. -/
theorem reservedWord?_plain {word : String} (h : reservedWord? word = some k) : k ∉ specialEnd := by
  unfold reservedWord? at h
  split at h <;> first
    | obtain rfl := Option.some.inj h
      decide
    | exact absurd h (Option.some_ne_none k).symm

/-- A word ends in a character of a word. -/
theorem wordLexeme_shaped (before : List Char) (hc : isWordStart c = true) :
    (wordLexeme before c cs).Shaped (c :: cs) := by
  have hends : Ends IsPlain (c :: cs) (c :: cs.takeWhile isWordPart).length := by
    rw [List.length_cons, Nat.add_comm]
    exact (Ends.head (isWordStart_plain hc)).append_run fun _ => isWordPart_plain
  refine .plain ?_ hends
  split
  · decide
  · cases hword : reservedWord? (String.ofList (c :: cs.takeWhile isWordPart)) with
    | none => decide
    | some k => exact reservedWord?_plain hword

/-! ## All tokens -/

/-- **Every token is of the shape of its kind.** -/
theorem lexeme_shape (before : List Char) (c : Char) (cs : List Char) :
    (lexeme before c cs).Shaped (c :: cs) := by
  unfold lexeme
  split
  · rename_i hspace
    refine .ok fun d hd => ?_
    rw [List.take_succ_cons, take_runLength] at hd
    rcases List.mem_cons.mp hd with rfl | hd
    · exact hspace
    · exact List.all_eq_true.mp List.all_takeWhile d hd
  split
  · rename_i hcomment
    obtain ⟨hc, hd⟩ := Bool.and_eq_true_iff.mp hcomment
    obtain rfl := beq_iff_eq.mp hc
    cases cs with
    | nil => exact absurd hd (by decide)
    | cons d ds =>
        obtain rfl := Option.some.inj (beq_iff_eq.mp hd)
        rw [runLength_cons _ (by decide)]
        exact .ok ⟨_, rfl⟩
  split
  · rename_i hcomment
    split
    · rename_i n hn
      cases cs with
      | nil => exact absurd hcomment (by simp)
      | cons d ds => exact .ok (blockCommentLength?_ends hn).cons.cons
    · exact .error
  split
  · rename_i hsigil
    apply embedLexeme_shaped
    rcases Bool.or_eq_true_iff.mp hsigil with h | h <;> obtain rfl := beq_iff_eq.mp h <;> decide
  split
  · rename_i hquote
    apply stringLexeme_shaped
    rcases Bool.or_eq_true_iff.mp hquote with h | h <;> obtain rfl := beq_iff_eq.mp h <;> decide
  split
  · unfold templateLexeme
    split
    · rename_i n hn
      exact .plain (by decide) (templateLength?_ends hn).cons
    · exact .error
  split
  · rename_i hnumber
    apply numberLexeme_shaped
    rcases Bool.or_eq_true_iff.mp hnumber with h | h
    · exact .inl h
    · exact .inr (Bool.and_eq_true_iff.mp h).2
  · split
    · rename_i htoken
      exact operatorLexeme?_shaped htoken
    · split
      · rename_i hword
        exact wordLexeme_shaped before hword
      · exact .error

end ComponentMarkup.Script
