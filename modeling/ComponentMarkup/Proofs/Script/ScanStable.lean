import ComponentMarkup.Proofs.Script.TokenEnd

/-!
# Scans in front of other texts

Words, numbers, strings, templates and comments are read by scans.  A scan that ends where a closing mark stands
ends there whatever follows; one that takes a run of characters ends there as long as what follows does not go
on with the run.

* `Starts`, `EndsWord` — what a text starts with, if it is not empty;
* `runLength_append`, `blockCommentLength?_take`, `stringLength_append`, `templateLength?_take` — the scans;
* `numberLexeme_append` — a number, with its fraction and its exponent.
-/

namespace ComponentMarkup.Text

/-- The characters that a text starts with are of a class; an empty text is fine. -/
def Starts (p : Char → Bool) (cs : List Char) : Prop :=
  ∀ c ∈ cs.head?, p c = true

variable {p : Char → Bool} {cs rest rest' : List Char} {n : Nat}

theorem Starts.nil : Starts p [] :=
  fun _ h => absurd h (Option.not_mem_none _)

theorem starts_cons {c : Char} : Starts p (c :: cs) ↔ p c = true := by
  constructor
  · exact fun h => h c rfl
  · rintro h d ⟨⟩
    exact h

theorem Starts.mono {q : Char → Bool} (h : Starts p cs) (hpq : ∀ c, p c = true → q c = true) : Starts q cs :=
  fun c hc => hpq c (h c hc)

/-- A run ends where a character that does not belong to it follows. -/
theorem runLength_append (h : Starts (!p ·) rest) : runLength p (cs ++ rest) = runLength p cs := by
  induction cs with
  | nil =>
      cases rest with
      | nil => rfl
      | cons d ds =>
          have hd : p d = false := by simpa using starts_cons.mp h
          simp [runLength, hd]
  | cons d ds ih =>
      cases hd : p d with
      | true => rw [List.cons_append, runLength_cons _ hd, runLength_cons _ hd, ih]
      | false => simp [runLength, hd]

/-- A run that takes exactly the first part of a text. -/
theorem runLength_append_eq (h : runLength p (cs ++ rest) = cs.length) :
    runLength p cs = cs.length ∧ Starts (!p ·) rest := by
  induction cs with
  | nil =>
      refine ⟨rfl, ?_⟩
      cases rest with
      | nil => exact .nil
      | cons d ds =>
          cases hd : p d with
          | true =>
              rw [List.nil_append, runLength_cons _ hd] at h
              exact absurd h (Nat.succ_ne_zero _)
          | false => exact starts_cons.mpr (by simp [hd])
  | cons d ds ih =>
      cases hd : p d with
      | true =>
          rw [List.cons_append, runLength_cons _ hd] at h
          obtain ⟨hrun, hrest⟩ := ih (Nat.succ.inj h)
          exact ⟨by rw [runLength_cons _ hd, hrun, List.length_cons], hrest⟩
      | false => simp [runLength, hd] at h

end ComponentMarkup.Text

namespace ComponentMarkup.Script

open ComponentMarkup.Text ComponentMarkup.Tree

variable {k : ScriptKind} {c : Char} {cs cs' rest rest' : List Char} {n : Nat}

/-! ## Scans up to a closing mark -/

/-- A text that agrees with another one on its first characters starts like it. -/
theorem take_succ_eq_cons {m : Nat} (h : cs'.take n = (c :: cs).take n) (hn : n = m + 1) :
    ∃ as, cs' = c :: as ∧ as.take m = cs.take m := by
  subst hn
  cases cs' with
  | nil => exact absurd h (by simp)
  | cons d as =>
      obtain ⟨rfl, htail⟩ := List.cons.inj h
      exact ⟨as, rfl, htail⟩

/-- A comment ends at its mark, whatever follows. -/
theorem blockCommentLength?_take (h : blockCommentLength? cs = some n) (htake : cs'.take n = cs.take n) :
    blockCommentLength? cs' = some n := by
  fun_induction blockCommentLength? cs generalizing cs' n with
  | case1 => exact absurd h (by simp)
  | case2 tail =>
      obtain rfl := Option.some.inj h
      obtain ⟨as, rfl, htail⟩ := take_succ_eq_cons htake rfl
      obtain ⟨bs, rfl, _⟩ := take_succ_eq_cons htail rfl
      rfl
  | case3 d tail hstop ih =>
      obtain ⟨m, hm, rfl⟩ := Option.map_eq_some_iff.mp h
      obtain ⟨as, rfl, htail⟩ := take_succ_eq_cons htake rfl
      have hpos : 1 ≤ m := (blockCommentLength?_ends hm).1
      have hgo : ∀ bs, d = '*' → as = '/' :: bs → False := by
        rintro bs hd rfl
        obtain ⟨es, rfl, _⟩ := take_succ_eq_cons htail.symm (Nat.succ_pred_eq_of_pos hpos).symm
        exact hstop es hd rfl
      rw [blockCommentLength?.eq_3 _ _ hgo, ih hm htail]
      rfl

/-- A string ends at its quote, whatever follows. -/
theorem stringLength_append {quote : Char} {escaped : Bool}
    (h : stringLength quote escaped (cs ++ rest) < cs.length) :
    stringLength quote escaped (cs ++ rest') = stringLength quote escaped (cs ++ rest) := by
  induction cs generalizing escaped with
  | nil => exact absurd h (Nat.not_lt_zero _)
  | cons d ds ih =>
      simp only [List.cons_append, stringLength] at h ⊢
      split
      · rfl
      · rename_i hgo
        rw [if_neg hgo] at h
        rw [ih (Nat.lt_of_succ_lt_succ h)]

/-- A character of a template string that is no backslash and does not open a substitution. -/
theorem templateLength?_cons {depth : Nat} (hescape : c ≠ '\\') (hopen : c = '$' → cs.head? ≠ some '{') :
    templateLength? depth (c :: cs) =
      if depth = 0 then
        if c == '\x60' then some 1 else (templateLength? 0 cs).map (· + 1)
      else if c == '{' then (templateLength? (depth + 1) cs).map (· + 1)
      else if c == '}' then (templateLength? (depth - 1) cs).map (· + 1)
      else (templateLength? depth cs).map (· + 1) := by
  refine templateLength?.eq_5 depth c cs ?_ ?_ ?_
  · exact fun h _ => hescape h
  · exact fun _ _ h _ => hescape h
  · rintro ds rfl rfl
    exact hopen rfl rfl

/-- Behind a character that is neither a backslash nor opens a substitution, a text that agrees on its first
characters does not open one either. -/
theorem plain_of_take (hlast : c = '\\' → cs = [] → False) (hescape : ∀ d ds, c = '\\' → cs = d :: ds → False)
    (hopen : ∀ ds, c = '$' → cs = '{' :: ds → False) (hpos : 1 ≤ n)
    (htake : cs'.take (n + 1) = (c :: cs).take (n + 1)) :
    ∃ as, cs' = c :: as ∧ as.take n = cs.take n ∧ c ≠ '\\' ∧ (c = '$' → as.head? ≠ some '{') := by
  obtain ⟨as, rfl, htail⟩ := take_succ_eq_cons htake rfl
  refine ⟨as, rfl, htail, ?_, ?_⟩
  · intro hc
    cases cs with
    | nil => exact hlast hc rfl
    | cons d ds => exact hescape d ds hc rfl
  · intro hc hhead
    obtain ⟨bs, rfl⟩ := List.head?_eq_some_iff.mp hhead
    obtain ⟨ds, rfl, _⟩ := take_succ_eq_cons htail.symm (Nat.succ_pred_eq_of_pos hpos).symm
    exact hopen ds hc rfl

/-- A template string ends at its backtick, whatever follows. -/
theorem templateLength?_take {depth : Nat} (h : templateLength? depth cs = some n)
    (htake : cs'.take n = cs.take n) : templateLength? depth cs' = some n := by
  fun_induction templateLength? depth cs generalizing cs' n with
  | case1 => exact absurd h (by simp)
  | case2 => exact absurd h (by simp)
  | case3 depth d tail ih | case4 depth tail ih =>
      obtain ⟨m, hm, rfl⟩ := Option.map_eq_some_iff.mp h
      obtain ⟨as, rfl, hnext⟩ := take_succ_eq_cons htake rfl
      obtain ⟨bs, rfl, htail⟩ := take_succ_eq_cons hnext rfl
      rw [templateLength?, ih hm htail]
      rfl
  | case5 d tail hlast hescape hopen hquote =>
      obtain rfl := Option.some.inj h
      obtain ⟨as, rfl, _⟩ := take_succ_eq_cons htake rfl
      obtain rfl := beq_iff_eq.mp hquote
      rw [templateLength?_cons (by decide) (fun h => absurd h (by decide))]
      rfl
  | case6 d tail hlast hescape hopen hquote ih =>
      obtain ⟨m, hm, rfl⟩ := Option.map_eq_some_iff.mp h
      obtain ⟨as, rfl, htail, hslash, hdollar⟩ :=
        plain_of_take hlast hescape hopen (templateLength?_ends hm).1 htake
      rw [templateLength?_cons hslash hdollar, if_pos rfl, if_neg hquote, ih hm htail]
      rfl
  | case7 depth d tail hlast hescape hopen hdepth hbrace ih =>
      obtain ⟨m, hm, rfl⟩ := Option.map_eq_some_iff.mp h
      obtain ⟨as, rfl, htail, hslash, hdollar⟩ :=
        plain_of_take hlast hescape hopen (templateLength?_ends hm).1 htake
      rw [templateLength?_cons hslash hdollar, if_neg hdepth, if_pos hbrace, ih hm htail]
      rfl
  | case8 depth d tail hlast hescape hopen hdepth hbrace hclose ih =>
      obtain ⟨m, hm, rfl⟩ := Option.map_eq_some_iff.mp h
      obtain ⟨as, rfl, htail, hslash, hdollar⟩ :=
        plain_of_take hlast hescape hopen (templateLength?_ends hm).1 htake
      rw [templateLength?_cons hslash hdollar, if_neg hdepth, if_neg hbrace, if_pos hclose, ih hm htail]
      rfl
  | case9 depth d tail hlast hescape hopen hdepth hbrace hclose ih =>
      obtain ⟨m, hm, rfl⟩ := Option.map_eq_some_iff.mp h
      obtain ⟨as, rfl, htail, hslash, hdollar⟩ :=
        plain_of_take hlast hescape hopen (templateLength?_ends hm).1 htake
      rw [templateLength?_cons hslash hdollar, if_neg hdepth, if_neg hbrace, if_neg hclose, ih hm htail]
      rfl

/-! ## Numbers -/

/-- A text that does not go on with a character of a word. -/
abbrev EndsWord (cs : List Char) : Prop :=
  Starts (!isWordPart ·) cs

theorem EndsWord.starts {p : Char → Bool} (h : EndsWord rest) (hp : ∀ c, p c = true → IsWordPart c) :
    Starts (!p ·) rest := by
  intro d hd
  have hpart : isWordPart d = false := by simpa using h d hd
  cases hpd : p d with
  | false => simp [hpd]
  | true =>
      have hword : isWordPart d = true := hp d hpd
      rw [hpart] at hword
      exact absurd hword Bool.false_ne_true

/-- It does not start with any given character of a word. -/
theorem EndsWord.head_ne (h : EndsWord rest) (hc : IsWordPart c) : (rest.head? == some c) = false := by
  rw [beq_eq_false_iff_ne]
  intro hhead
  have hpart : isWordPart c = false := by simpa using h c hhead
  have hword : isWordPart c = true := hc
  rw [hpart] at hword
  exact absurd hword Bool.false_ne_true

/-- Texts of which neither goes on with a word start with the mark of a number alike. -/
theorem EndsWord.head_append (h : EndsWord rest) (h' : EndsWord rest') (hc : IsWordPart c) :
    ((cs ++ rest').head? == some c) = ((cs ++ rest).head? == some c) := by
  cases cs with
  | nil => rw [List.nil_append, List.nil_append, h.head_ne hc, h'.head_ne hc]
  | cons d ds => rfl

/-- The mark of a number lies in front of a text that continues no word. -/
theorem EndsWord.mark_le (h : EndsWord rest) (hc : IsWordPart c) :
    (if (cs ++ rest).head? == some c then 1 else 0) ≤ cs.length := by
  cases cs with
  | nil =>
      rw [List.nil_append, h.head_ne hc]
      exact Nat.le_refl 0
  | cons d ds =>
      rw [List.length_cons]
      split <;> omega

theorem numberEnd_le {length : Nat} (h : numberEnd length cs = ⟨.ok k, n⟩) : length ≤ n := by
  have hle := (numberEnd_bound length cs).1
  rwa [h] at hle

/-- Behind the end of a number no word goes on. -/
theorem numberEnd_endsWord {length : Nat} (h : numberEnd length cs = ⟨.ok k, length + n⟩) :
    EndsWord (cs.drop n) := by
  simp only [numberEnd] at h
  generalize (if cs.head? == some 'n' then 1 else 0) = mark at h
  split at h
  · rename_i hextra
    obtain rfl : mark = n := Nat.add_left_cancel (congrArg Lexeme.length h)
    have hnone : runLength isWordPart ([] ++ cs.drop mark) = ([] : List Char).length := hextra
    exact (runLength_append_eq hnone).2
  · exact absurd (congrArg Lexeme.kind h) (by simp)

/-- The end of a number is the same in front of all texts that continue no word. -/
theorem numberEnd_append (length : Nat) (h : EndsWord rest) (h' : EndsWord rest') :
    numberEnd length (cs ++ rest') = numberEnd length (cs ++ rest) := by
  have hn : IsWordPart 'n' := by decide
  have hmark : (if (cs ++ rest).head? == some 'n' then 1 else 0) ≤ cs.length := h.mark_le hn
  simp only [numberEnd, h.head_append h' hn]
  generalize (if (cs ++ rest).head? == some 'n' then 1 else 0) = mark at hmark ⊢
  rw [List.drop_append_of_le_length hmark, List.drop_append_of_le_length hmark,
    runLength_append (h.starts fun _ => id), runLength_append (h'.starts fun _ => id)]

/-- No digit behind its first character, no fraction. -/
theorem fractionLength_cons (h : Starts (!isDigit ·) cs) : fractionLength (c :: cs) = 0 := by
  unfold fractionLength
  split
  · rename_i d ds heq
    obtain ⟨_, rfl⟩ := List.cons.inj heq
    have hd : isDigit d = false := by simpa using starts_cons.mp h
    rw [hd]
    rfl
  · rfl

/-- A fraction that ends in front of a text that continues no word is the same in front of all of them, if no
point with a digit follows. -/
theorem fractionLength_append (h : EndsWord rest) (h' : EndsWord rest')
    (hpoint : fractionLength rest = 0 → fractionLength rest' = 0)
    (hle : fractionLength (cs ++ rest) ≤ cs.length) :
    fractionLength (cs ++ rest') = fractionLength (cs ++ rest) := by
  match cs with
  | [] =>
      have hnone : fractionLength rest = 0 := Nat.le_zero.mp hle
      rw [List.nil_append, List.nil_append, hnone, hpoint hnone]
  | [d] =>
      have hnone : ∀ {tail}, EndsWord tail → fractionLength ([d] ++ tail) = 0 :=
        fun htail => fractionLength_cons (htail.starts fun _ => isDigit_word)
      rw [hnone h, hnone h']
  | d :: e :: ds =>
      have hrun : runLength isNumeral (e :: ds ++ rest') = runLength isNumeral (e :: ds ++ rest) := by
        rw [runLength_append (h.starts fun _ => isNumeral_word),
          runLength_append (h'.starts fun _ => isNumeral_word)]
      by_cases hd : d = '.'
      · subst hd
        show (if isDigit e then 1 + runLength isNumeral (e :: ds ++ rest') else 0) =
          if isDigit e then 1 + runLength isNumeral (e :: ds ++ rest) else 0
        rw [hrun]
      · have hnone : ∀ tail, fractionLength (d :: tail) = 0 := by
          intro tail
          unfold fractionLength
          split
          · rename_i heq
            exact absurd (List.cons.inj heq).1 hd
          · rfl
        exact (hnone _).trans (hnone _).symm

/-- The length of a sign, if there is one. -/
def signLength (cs : List Char) : Nat :=
  if cs.head? == some '+' || cs.head? == some '-' then 1 else 0

/-- An exponent is a letter, perhaps a sign, and digits. -/
theorem exponentLength_cons (h : (c == 'e' || c == 'E') = true) :
    exponentLength (c :: cs) =
      if runLength isDigit (cs.drop (signLength cs)) = 0 then .error (1 + signLength cs)
      else .ok (1 + signLength cs + runLength isDigit (cs.drop (signLength cs))) :=
  if_pos h

/-- Nothing that continues no word starts with an exponent. -/
theorem exponentLength_endsWord (h : EndsWord cs) : exponentLength cs = .ok 0 := by
  cases cs with
  | nil => rfl
  | cons d ds =>
      have hlower : (d == 'e') = false := by simpa using h.head_ne (show IsWordPart 'e' by decide)
      have hupper : (d == 'E') = false := by simpa using h.head_ne (show IsWordPart 'E' by decide)
      simp [exponentLength, hlower, hupper]

/-- An exponent that ends in front of a text that continues no word is the same in front of all of them. -/
theorem exponentLength_append (h : EndsWord rest) (h' : EndsWord rest')
    (hexp : exponentLength (cs ++ rest) = .ok n) (hle : n ≤ cs.length) :
    exponentLength (cs ++ rest') = .ok n := by
  cases cs with
  | nil =>
      obtain rfl := Nat.le_zero.mp hle
      exact exponentLength_endsWord h'
  | cons d ds =>
      cases hmark : d == 'e' || d == 'E' with
      | false =>
          rw [List.cons_append, exponentLength, hmark] at hexp ⊢
          exact hexp
      | true =>
          rw [List.cons_append, exponentLength_cons hmark] at hexp ⊢
          cases ds with
          | nil =>
              -- behind the letter alone the digits would lie in what follows
              split at hexp
              · exact absurd hexp (by simp)
              · have hn := Except.ok.inj hexp
                rw [List.length_singleton] at hle
                omega
          | cons e es =>
              have hsign : signLength (e :: es ++ rest') = signLength (e :: es ++ rest) := rfl
              have hle : signLength (e :: es ++ rest) ≤ (e :: es).length := by
                unfold signLength
                split
                · exact Nat.succ_le_succ (Nat.zero_le _)
                · exact Nat.zero_le _
              have hrun : runLength isDigit ((e :: es ++ rest').drop (signLength (e :: es ++ rest))) =
                  runLength isDigit ((e :: es ++ rest).drop (signLength (e :: es ++ rest))) := by
                rw [List.drop_append_of_le_length hle, List.drop_append_of_le_length hle,
                  runLength_append (h.starts fun _ => isDigit_word),
                  runLength_append (h'.starts fun _ => isDigit_word)]
              rw [hsign, hrun]
              exact hexp

/-- A letter that tells the radix of a number. -/
def isRadixMark (c : Char) : Bool :=
  c == 'x' || c == 'X' || c == 'o' || c == 'O' || c == 'b' || c == 'B'

theorem isRadixMark_word (h : isRadixMark c = true) : IsWordPart c := by
  simp only [isRadixMark, Bool.or_eq_true, beq_iff_eq] at h
  rcases h with ((((rfl | rfl) | rfl) | rfl) | rfl) | rfl <;> decide

theorem numberLexeme_radix {d : Char} (hd : isRadixMark d = true) : numberLexeme '0' (d :: cs) =
    numberEnd (runLength (fun d => isHexDigit d || d == '_') cs + 2)
      (cs.drop (runLength (fun d => isHexDigit d || d == '_') cs)) :=
  if_pos hd

/-- The fraction of a number, unless the number starts with its point. -/
def fractionBehind (c : Char) (cs : List Char) : Nat :=
  if c == '.' then 0 else fractionLength cs

theorem fractionBehind_append (h : EndsWord rest) (h' : EndsWord rest')
    (hpoint : fractionLength rest = 0 → fractionLength rest' = 0)
    (hle : fractionBehind c (cs ++ rest) ≤ cs.length) :
    fractionBehind c (cs ++ rest') = fractionBehind c (cs ++ rest) := by
  unfold fractionBehind at hle ⊢
  split at hle
  · rename_i hc
    rw [if_pos hc, if_pos hc]
  · rename_i hc
    rw [if_neg hc, if_neg hc]
    exact fractionLength_append h h' hpoint hle

/-- A number behind its first character, if no letter tells its radix. -/
def decimalLexeme (c : Char) (cs : List Char) : Lexeme :=
  let whole := runLength isNumeral cs
  let fraction := fractionBehind c (cs.drop whole)
  match exponentLength ((cs.drop whole).drop fraction) with
  | .error n => ⟨.error "invalid number exponent", 1 + whole + fraction + n⟩
  | .ok n => numberEnd (1 + whole + fraction + n) (((cs.drop whole).drop fraction).drop n)

theorem numberLexeme_decimal (h : (c == '0' && cs.head?.any isRadixMark) = false) :
    numberLexeme c cs = decimalLexeme c cs :=
  if_neg (Bool.eq_false_iff.mp h)

/-- A number without a letter for its radix is its digits, its fraction, its exponent and its end. -/
theorem decimalLexeme_ok (h : decimalLexeme c cs = ⟨.ok k, n⟩) :
    ∃ m, exponentLength ((cs.drop (runLength isNumeral cs)).drop
        (fractionBehind c (cs.drop (runLength isNumeral cs)))) = .ok m ∧
      numberEnd (1 + runLength isNumeral cs + fractionBehind c (cs.drop (runLength isNumeral cs)) + m)
        (((cs.drop (runLength isNumeral cs)).drop
          (fractionBehind c (cs.drop (runLength isNumeral cs)))).drop m) = ⟨.ok k, n⟩ := by
  simp only [decimalLexeme] at h
  split at h
  · exact absurd (congrArg Lexeme.kind h) (by simp)
  · rename_i m hexp
    exact ⟨m, hexp, h⟩

/-- It is the same in front of all texts that continue no word. -/
theorem decimalLexeme_append (h : EndsWord rest) (h' : EndsWord rest')
    (hpoint : fractionLength rest = 0 → fractionLength rest' = 0)
    (hnumber : decimalLexeme c (cs ++ rest) = ⟨.ok k, cs.length + 1⟩) :
    decimalLexeme c (cs ++ rest') = ⟨.ok k, cs.length + 1⟩ := by
  obtain ⟨m, hexp, hend⟩ := decimalLexeme_ok hnumber
  have hbound := numberEnd_le hend
  have hwhole := runLength_le isNumeral cs
  unfold decimalLexeme
  dsimp only
  rw [runLength_append (p := isNumeral) (h.starts fun _ => isNumeral_word),
    List.drop_append_of_le_length hwhole] at *
  rw [runLength_append (p := isNumeral) (h'.starts fun _ => isNumeral_word),
    List.drop_append_of_le_length hwhole]
  have hlen : (cs.drop (runLength isNumeral cs)).length = cs.length - runLength isNumeral cs :=
    List.length_drop
  generalize cs.drop (runLength isNumeral cs) = ds at *
  have hle : fractionBehind c (ds ++ rest) ≤ ds.length := by omega
  rw [fractionBehind_append h h' hpoint hle, List.drop_append_of_le_length hle]
  rw [List.drop_append_of_le_length hle] at hexp hend
  have hlen' : (ds.drop (fractionBehind c (ds ++ rest))).length =
      ds.length - fractionBehind c (ds ++ rest) := List.length_drop
  have hm : m ≤ (ds.drop (fractionBehind c (ds ++ rest))).length := by omega
  rw [exponentLength_append h h' hexp hm]
  dsimp only
  rw [List.drop_append_of_le_length hm] at hend ⊢
  rw [numberEnd_append _ h h']
  exact hend

/-- **A number is the same in front of all texts that continue no word.** -/
theorem numberLexeme_append (h : EndsWord rest) (h' : EndsWord rest')
    (hpoint : fractionLength rest = 0 → fractionLength rest' = 0)
    (hnumber : numberLexeme c (cs ++ rest) = ⟨.ok k, cs.length + 1⟩) :
    numberLexeme c (cs ++ rest') = ⟨.ok k, cs.length + 1⟩ := by
  have hnone : ∀ {tail}, EndsWord tail → tail.head?.any isRadixMark = false := by
    intro tail htail
    cases tail with
    | nil => rfl
    | cons d ds => simpa using starts_cons.mp (htail.starts fun _ => isRadixMark_word)
  have hradix : (cs ++ rest').head?.any isRadixMark = (cs ++ rest).head?.any isRadixMark := by
    cases cs with
    | nil => rw [List.nil_append, List.nil_append, hnone h, hnone h']
    | cons d ds => rfl
  cases hprefix : c == '0' && (cs ++ rest).head?.any isRadixMark with
  | false =>
      rw [numberLexeme_decimal hprefix] at hnumber
      rw [← hradix] at hprefix
      rw [numberLexeme_decimal hprefix]
      exact decimalLexeme_append h h' hpoint hnumber
  | true =>
      obtain ⟨hzero, hmark⟩ := Bool.and_eq_true_iff.mp hprefix
      obtain rfl := beq_iff_eq.mp hzero
      cases cs with
      | nil =>
          rw [List.nil_append, hnone h] at hmark
          exact absurd hmark Bool.false_ne_true
      | cons d ds =>
          have hle := runLength_le (fun d => isHexDigit d || d == '_') ds
          rw [List.cons_append, numberLexeme_radix hmark,
            runLength_append (h.starts fun _ => isRadixDigit_word), List.drop_append_of_le_length hle] at hnumber
          rw [List.cons_append, numberLexeme_radix hmark,
            runLength_append (h'.starts fun _ => isRadixDigit_word), List.drop_append_of_le_length hle,
            numberEnd_append _ h h']
          exact hnumber

/-- Behind a number no word goes on. -/
theorem numberLexeme_endsWord (hnumber : numberLexeme c (cs ++ rest) = ⟨.ok k, cs.length + 1⟩) :
    EndsWord rest := by
  have hrest : ∀ {a b c d : Nat}, a + b + c + d = cs.length →
      ((((cs ++ rest).drop a).drop b).drop c).drop d = rest := by
    intro a b c d hsum
    rw [List.drop_drop, List.drop_drop, List.drop_drop, ← Nat.add_assoc, ← Nat.add_assoc, hsum, List.drop_left]
  cases hprefix : c == '0' && (cs ++ rest).head?.any isRadixMark with
  | false =>
      rw [numberLexeme_decimal hprefix] at hnumber
      obtain ⟨m, hexp, hend⟩ := decimalLexeme_ok hnumber
      have hbound := numberEnd_le hend
      obtain ⟨d, hd⟩ := Nat.exists_eq_add_of_le hbound
      have hends := numberEnd_endsWord (hend.trans (congrArg (Lexeme.mk _) hd))
      rwa [hrest (by omega)] at hends
  | true =>
      obtain ⟨hzero, hmark⟩ := Bool.and_eq_true_iff.mp hprefix
      obtain rfl := beq_iff_eq.mp hzero
      cases hall : cs ++ rest with
      | nil =>
          rw [hall] at hmark
          exact absurd hmark Bool.false_ne_true
      | cons d ds =>
          rw [hall] at hmark hnumber
          rw [numberLexeme_radix hmark] at hnumber
          have hbound := numberEnd_le hnumber
          obtain ⟨e, he⟩ := Nat.exists_eq_add_of_le hbound
          have hends := numberEnd_endsWord (hnumber.trans (congrArg (Lexeme.mk _) he))
          have hds : ds = ((cs ++ rest).drop 0).drop 1 := by rw [hall]; rfl
          rw [hds] at hends he
          rwa [hrest (by omega)] at hends

end ComponentMarkup.Script
