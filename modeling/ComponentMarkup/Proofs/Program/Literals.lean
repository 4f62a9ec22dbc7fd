import ComponentMarkup.Program.Literal
import ComponentMarkup.Script.Token

/-!
# Literals and the texts they denote

A string of a program is a sequence of UTF-16 units.  Its literal is read from the opening quote on: a backslash starts
an escape, which stands for some units or, before a line end, for none; line feeds and carriage returns may not occur;
any other character stands for itself.  A literal that was written for a text is read back as this text, and the script
lexer takes it for one token, whatever stands behind it.

* `utf16`, `utf16_injective` — the units of a text, which determine it;
* `escape?`, `stringBody?`, `stringValue?` — how escapes and literals are read;
* `Spelling`, `literalChar_spelling` — how a character is written so that it can be read;
* `stringLength_spelling`, `stringBody?_spelling` — the lexer and the reader agree on it;
* `literal_next`, `literal_value` — literals are one token and denote their texts.
-/

namespace ComponentMarkup.Program

open ComponentMarkup.Text ComponentMarkup.Tree ComponentMarkup.Script

variable {c d q : Char} {cs ds rest : List Char} {n m v : Nat} {us vs : List Nat}

/-! ## Units -/

/-- The UTF-16 units of a code point: one, or two surrogates. -/
def pointUnits (n : Nat) : List Nat :=
  if n < 0x10000 then [n] else [0xD800 + (n - 0x10000) / 0x400, 0xDC00 + (n - 0x10000) % 0x400]

/-- The UTF-16 units of a text. -/
def utf16 (cs : List Char) : List Nat :=
  cs.flatMap fun c => pointUnits c.toNat

/-- A character is no surrogate. -/
theorem char_range (c : Char) : c.toNat < 0xD800 ∨ (0xDFFF < c.toNat ∧ c.toNat < 0x110000) :=
  c.valid

/-- The units of a character tell where they end and which character it is. -/
theorem pointUnits_append (h : pointUnits c.toNat ++ us = pointUnits d.toNat ++ vs) : c = d ∧ us = vs := by
  have hc := char_range c
  have hd := char_range d
  have hnat : c.toNat = d.toNat ∧ us = vs := by
    unfold pointUnits at h
    split at h <;> split at h <;> simp only [List.cons_append, List.nil_append, List.cons.injEq] at h
    · exact h
    · omega
    · omega
    · obtain ⟨hhigh, hlow, hrest⟩ := h
      exact ⟨by omega, hrest⟩
  exact ⟨Char.toNat_inj.mp hnat.1, hnat.2⟩

/-- **Texts with the same units are equal.** -/
theorem utf16_injective (h : utf16 cs = utf16 ds) : cs = ds := by
  have hne : ∀ n, pointUnits n ≠ [] := by
    intro n
    unfold pointUnits
    split <;> exact List.cons_ne_nil _ _
  induction cs generalizing ds with
  | nil =>
      cases ds with
      | nil => rfl
      | cons d ds => exact absurd (List.append_eq_nil_iff.mp h.symm).1 (hne _)
  | cons c cs ih =>
      cases ds with
      | nil => exact absurd (List.append_eq_nil_iff.mp h).1 (hne _)
      | cons d ds =>
          obtain ⟨rfl, hrest⟩ := pointUnits_append h
          rw [ih hrest]

/-! ## Reading a literal -/

/-- The value of a hexadecimal digit. -/
def hexDigit? (c : Char) : Option Nat :=
  let n := c.toNat
  if 0x30 ≤ n ∧ n ≤ 0x39 then some (n - 0x30)
  else if 0x61 ≤ n ∧ n ≤ 0x66 then some (n - 0x57)
  else if 0x41 ≤ n ∧ n ≤ 0x46 then some (n - 0x37)
  else none

/-- The number that hexadecimal digits continue, the first of them being the most significant. -/
def hexNumber? (value : Nat) : List Char → Option Nat
  | [] => some value
  | c :: cs => (hexDigit? c).bind fun digit => hexNumber? (16 * value + digit) cs

/-- A unit by a fixed number of hexadecimal digits, and what stands behind it. -/
def unitEscape? (count : Nat) (cs : List Char) : Option (List Nat × List Char) :=
  if count ≤ cs.length then (hexNumber? 0 (cs.take count)).map fun n => ([n], cs.drop count) else none

/-- A code point by hexadecimal digits before a closing brace, and what stands behind it. -/
def pointEscape? (cs : List Char) : Option (List Nat × List Char) :=
  let count := runLength (fun c => (hexDigit? c).isSome) cs
  if count = 0 || cs[count]? != some '\x7d' then none
  else (hexNumber? 0 (cs.take count)).bind fun n =>
    if n ≤ 0x10FFFF then some (pointUnits n, cs.drop (count + 1)) else none

/-- What a letter stands for after a backslash; any other character stands for itself. -/
def namedEscape (c : Char) : Nat :=
  match c with
  | 'b' => 0x08
  | 't' => 0x09
  | 'n' => 0x0A
  | 'v' => 0x0B
  | 'f' => 0x0C
  | 'r' => 0x0D
  | c => c.toNat

/-- Whether a character ends a line of a program. -/
def isLineTerminator (c : Char) : Bool :=
  c == '\n' || c == '\r' || c == '\u2028' || c == '\u2029'

/-- What the characters after a backslash stand for, and the characters behind them.  Digits stand for nothing, but for
a zero that no digit follows.  A line that ends at the backslash is continued. -/
def escape? : List Char → Option (List Nat × List Char)
  | [] => none
  | c :: cs =>
    if c == 'x' then unitEscape? 2 cs
    else if c == 'u' then if cs.head? == some '\x7b' then pointEscape? cs.tail else unitEscape? 4 cs
    else if c == '0' && !cs.head?.any isDigit then some ([0], cs)
    else if isDigit c then none
    else if c == '\r' && cs.head? == some '\n' then some ([], cs.tail)
    else if isLineTerminator c then some ([], cs)
    else some (pointUnits (namedEscape c), cs)

theorem unitEscape?_le {count : Nat} (h : unitEscape? count cs = some (us, rest)) : rest.length ≤ cs.length := by
  unfold unitEscape? at h
  split at h
  · obtain ⟨n, -, hn⟩ := Option.map_eq_some_iff.mp h
    rw [← (Prod.mk.inj hn).2, List.length_drop]
    exact Nat.sub_le _ _
  · exact absurd h (by simp)

theorem pointEscape?_le (h : pointEscape? cs = some (us, rest)) : rest.length ≤ cs.length := by
  simp only [pointEscape?] at h
  split at h
  · exact absurd h (by simp)
  · obtain ⟨n, -, hn⟩ := Option.bind_eq_some_iff.mp h
    split at hn
    · rw [← (Prod.mk.inj (Option.some.inj hn)).2, List.length_drop]
      exact Nat.sub_le _ _
    · exact absurd hn (by simp)

/-- An escape takes characters away. -/
theorem escape?_shorter (h : escape? cs = some (us, rest)) : rest.length < cs.length := by
  cases cs with
  | nil => exact absurd h (by simp [escape?])
  | cons c cs =>
      have htail : cs.tail.length ≤ cs.length := by simp
      have hunit := fun count => @unitEscape?_le cs rest us count
      have hpoint := @pointEscape?_le cs.tail rest us
      rw [escape?] at h
      rw [List.length_cons]
      grind

/-- The units that the characters behind an opening quote stand for up to its closing quote, and what stands behind
the literal. -/
def stringBody? (quote : Char) : List Char → Option (List Nat × List Char)
  | [] => none
  | c :: cs =>
    if c == quote then some ([], cs)
    else if c == '\n' || c == '\r' then none
    else if c == '\\' then
      match _hescape : escape? cs with
      | none => none
      | some (units, rest) => (stringBody? quote rest).map fun (us, after) => (units ++ us, after)
    else (stringBody? quote cs).map fun (us, after) => (pointUnits c.toNat ++ us, after)
termination_by cs => cs.length
decreasing_by
  · exact Nat.lt_succ_of_lt (escape?_shorter _hescape)
  · exact Nat.lt_succ_self _

/-- The units of a literal, if a text is one. -/
def stringValue? : List Char → Option (List Nat)
  | [] => none
  | quote :: cs =>
    if quote == '\x22' || quote == '\x27' then
      match stringBody? quote cs with
      | some (units, []) => some units
      | _ => none
    else none

/-! ## How characters are written -/

/-- A character that stands for itself in a literal. -/
structure Verbatim (c : Char) : Prop where
  quote : c ≠ '\x22'
  backslash : c ≠ '\\'
  newline : isNewline c = false
  control : isControl c = false

/-- The ways to write a character in a literal: as it is, or by a backslash and characters that stand for it. -/
inductive Spelling (c : Char) : List Char → Prop where
  | verbatim (h : Verbatim c) : Spelling c [c]
  | escaped {d : Char} {ds : List Char} (hmark : isNewline d = false ∧ isControl d = false)
      (hverbatim : ∀ e ∈ ds, Verbatim e)
      (hread : ∀ rest, escape? (d :: ds ++ rest) = some (pointUnits c.toNat, rest)) : Spelling c ('\\' :: d :: ds)

/-- A hexadecimal digit stands for itself. -/
theorem verbatim_hexDigit (h : hexDigit? c = some n) : Verbatim c := by
  have hrange : (0x30 ≤ c.toNat ∧ c.toNat ≤ 0x39) ∨ (0x41 ≤ c.toNat ∧ c.toNat ≤ 0x46) ∨
      (0x61 ≤ c.toNat ∧ c.toNat ≤ 0x66) := by
    simp only [hexDigit?] at h
    grind
  have hne : ∀ {d : Char}, c = d → c.toNat = d.toNat := fun heq => congrArg Char.toNat heq
  constructor
  · intro heq
    have hquote : c.toNat = 0x22 := hne heq
    omega
  · intro heq
    have hbackslash : c.toNat = 0x5C := hne heq
    omega
  · simp [isNewline]
    omega
  · simp [isControl]
    omega

/-- The digits that a digit stands for are one digit. -/
theorem hexDigit?_digitChar (h : n < 16) : hexDigit? (Nat.digitChar n) = some n := by
  have hdigits : ∀ digit : Fin 16, hexDigit? (Nat.digitChar digit) = some digit.val := by decide
  exact hdigits ⟨n, h⟩

theorem hexNumber?_append : hexNumber? v (cs ++ ds) = (hexNumber? v cs).bind fun n => hexNumber? n ds := by
  induction cs generalizing v with
  | nil => rfl
  | cons c cs ih =>
      rw [List.cons_append, hexNumber?, hexNumber?, Option.bind_assoc]
      exact congrArg _ (funext fun digit => ih)

theorem hexNumber?_zeros (count : Nat) : hexNumber? 0 (List.replicate count '0') = some 0 := by
  induction count with
  | zero => rfl
  | succ count ih => exact ih

/-- The digits of a number are read as this number. -/
theorem hexNumber?_toDigits (n : Nat) : hexNumber? 0 (Nat.toDigits 16 n) = some n := by
  induction n using Nat.strongRecOn with
  | _ n ih =>
      by_cases hsmall : n < 16
      · rw [Nat.toDigits_of_lt_base hsmall, hexNumber?, hexDigit?_digitChar hsmall, Option.bind_some, hexNumber?]
        exact congrArg some (Nat.zero_add n)
      · have hdigit := hexDigit?_digitChar (Nat.mod_lt n (by decide : 0 < 16))
        rw [Nat.toDigits_of_base_le (by decide) (by omega), hexNumber?_append, ih (n / 16) (by omega), Option.bind_some,
          hexNumber?, hdigit, Option.bind_some, hexNumber?]
        exact congrArg some (Nat.div_add_mod n 16)

/-- What is read as a number consists of digits. -/
theorem verbatim_hexNumber (h : hexNumber? v cs = some n) : ∀ c ∈ cs, Verbatim c := by
  induction cs generalizing v with
  | nil => exact fun c hc => absurd hc List.not_mem_nil
  | cons d cs ih =>
      obtain ⟨digit, hdigit, hrest⟩ := Option.bind_eq_some_iff.mp h
      intro c hc
      rcases List.mem_cons.mp hc with rfl | hc
      · exact verbatim_hexDigit hdigit
      · exact ih hrest c hc

/-- A character with a number of four digits may be written by its number. -/
theorem numberEscape_spelling (h : c.toNat < 0x10000) : Spelling c (numberEscape c) := by
  have hle : (Nat.toDigits 16 c.toNat).length ≤ 4 := (Nat.length_toDigits_le_iff (by decide) (by decide)).mpr h
  let digits := List.replicate (4 - (Nat.toDigits 16 c.toNat).length) '0' ++ Nat.toDigits 16 c.toNat
  have hlength : digits.length = 4 := by
    rw [List.length_append, List.length_replicate]
    omega
  have hvalue : hexNumber? 0 digits = some c.toNat := by
    rw [hexNumber?_append, hexNumber?_zeros]
    exact hexNumber?_toDigits c.toNat
  have hread : ∀ rest, unitEscape? 4 (digits ++ rest) = some ([c.toNat], rest) := by
    intro rest
    rw [unitEscape?, if_pos (by rw [List.length_append, hlength]; omega), ← hlength, List.take_left, List.drop_left,
      hvalue]
    rfl
  have hbrace : ∀ rest, (digits ++ rest).head? ≠ some '\x7b' := by
    intro rest hhead
    cases hdigits : digits with
    | nil =>
        rw [hdigits] at hlength
        exact absurd hlength (by decide)
    | cons d ds =>
        rw [hdigits, List.cons_append, List.head?_cons] at hhead
        obtain rfl := Option.some.inj hhead
        rw [hdigits] at hvalue
        exact absurd hvalue (by simp [hexNumber?, hexDigit?])
  have hmark : isNewline 'u' = false ∧ isControl 'u' = false := by decide
  apply Spelling.escaped hmark (verbatim_hexNumber hvalue)
  intro rest
  rw [List.cons_append, escape?, if_neg (by decide), if_pos (by decide), if_neg (by simpa using hbrace rest), hread,
    pointUnits, if_pos h]

theorem Spelling.named (hmark : isNewline d = false ∧ isControl d = false)
    (hread : ∀ rest, escape? (d :: rest) = some (pointUnits c.toNat, rest)) : Spelling c ['\\', d] :=
  .escaped hmark (fun _ he => absurd he List.not_mem_nil) hread

/-- Line ends that are no control characters are the two separators. -/
theorem isNewline_of_not_separator (hline : c ≠ '\u2028') (hparagraph : c ≠ '\u2029') (h : isControl c = false) :
    isNewline c = false := by
  have hline : c.toNat ≠ 0x2028 := fun heq => hline (Char.toNat_inj.mp heq)
  have hparagraph : c.toNat ≠ 0x2029 := fun heq => hparagraph (Char.toNat_inj.mp heq)
  simp [isControl] at h
  simp [isNewline]
  omega

/-- What is written by its number has a number of four digits. -/
theorem numbered_small (h : (c == '\u2028' || c == '\u2029' || isControl c) = true) : c.toNat < 0x10000 := by
  simp only [Bool.or_eq_true, beq_iff_eq, isControl, Bool.and_eq_true, decide_eq_true_eq] at h
  rcases h with (rfl | rfl) | h
  · decide
  · decide
  · omega

/-- **Every character is written so that it can be read.** -/
theorem literalChar_spelling (c : Char) : Spelling c (literalChar c) := by
  unfold literalChar
  split
  · rename_i hquote
    rw [beq_iff_eq.mp hquote]
    exact .named ⟨rfl, rfl⟩ fun _ => rfl
  split
  · rename_i hbackslash
    rw [beq_iff_eq.mp hbackslash]
    exact .named ⟨rfl, rfl⟩ fun _ => rfl
  split
  · rename_i hfeed
    rw [beq_iff_eq.mp hfeed]
    exact .named ⟨rfl, rfl⟩ fun _ => rfl
  split
  · rename_i hreturn
    rw [beq_iff_eq.mp hreturn]
    exact .named ⟨rfl, rfl⟩ fun _ => rfl
  split
  · rename_i htab
    rw [beq_iff_eq.mp htab]
    exact .named ⟨rfl, rfl⟩ fun _ => rfl
  split
  · rename_i hnumbered
    exact numberEscape_spelling (numbered_small hnumbered)
  · rename_i hquote hbackslash _ _ _ hplain
    simp only [Bool.or_eq_true, beq_iff_eq, not_or, Bool.not_eq_true] at hquote hbackslash hplain
    exact .verbatim ⟨hquote, hbackslash, isNewline_of_not_separator hplain.1.1 hplain.1.2 hplain.2, hplain.2⟩

/-! ## Scanning and reading -/

/-- Verbatim characters do not end a string. -/
theorem stringLength_verbatim (h : ∀ c ∈ cs, Verbatim c) :
    stringLength '\x22' false (cs ++ rest) = cs.length + stringLength '\x22' false rest := by
  induction cs with
  | nil => exact (Nat.zero_add _).symm
  | cons c cs ih =>
      have hc := h c List.mem_cons_self
      have hrest := ih fun d hd => h d (List.mem_cons_of_mem c hd)
      rw [List.cons_append, stringLength, if_neg (by simp [hc.quote, hc.newline]), beq_false_of_ne hc.backslash,
        Bool.false_and, hrest, List.length_cons]
      omega

/-- Nor do the characters that a character is written with. -/
theorem stringLength_spelling (h : Spelling c cs) :
    stringLength '\x22' false (cs ++ rest) = cs.length + stringLength '\x22' false rest := by
  cases h with
  | verbatim h =>
      apply stringLength_verbatim
      intro d hd
      rw [List.mem_singleton.mp hd]
      exact h
  | @escaped d ds hmark hverbatim hread =>
      -- The character behind the backslash is passed over whatever it is, also if it is a quote or another backslash.
      have hescaped : stringLength '\x22' false ('\\' :: d :: ds ++ rest) =
          stringLength '\x22' false (ds ++ rest) + 1 + 1 := by
        rw [List.cons_append, stringLength, if_neg (by decide), List.cons_append, stringLength]
        simp
      rw [hescaped, stringLength_verbatim hverbatim, List.length_cons, List.length_cons]
      omega

/-- The characters that a character is written with are read as this character. -/
theorem stringBody?_spelling (h : Spelling c cs) : stringBody? '\x22' (cs ++ rest) =
    (stringBody? '\x22' rest).map fun (us, after) => (pointUnits c.toNat ++ us, after) := by
  cases h with
  | verbatim h =>
      have hfeed : c ≠ '\n' := by
        rintro rfl
        exact absurd h.newline (by decide)
      have hreturn : c ≠ '\r' := by
        rintro rfl
        exact absurd h.newline (by decide)
      rw [List.singleton_append, stringBody?, if_neg (by simpa using h.quote), if_neg (by simp [hfeed, hreturn]),
        if_neg (by simpa using h.backslash)]
  | @escaped d ds hmark hverbatim hread =>
      rw [List.cons_append, stringBody?, if_neg (by decide), if_neg (by decide), if_pos (by decide)]
      split
      · rename_i hnone
        rw [hread] at hnone
        exact absurd hnone (by simp)
      · rename_i units after hsome
        rw [hread] at hsome
        obtain ⟨rfl, rfl⟩ := Prod.mk.inj (Option.some.inj hsome)
        rfl

/-- Nothing that a character is written with ends a line or is a control character. -/
theorem Spelling.visible (h : Spelling c cs) : ∀ d ∈ cs, isNewline d = false ∧ isControl d = false := by
  cases h with
  | verbatim h =>
      intro d hd
      rw [List.mem_singleton.mp hd]
      exact ⟨h.newline, h.control⟩
  | @escaped e ds hmark hverbatim hread =>
      intro d hd
      rcases List.mem_cons.mp hd with rfl | hd
      · decide
      · rcases List.mem_cons.mp hd with rfl | hd
        · exact hmark
        · exact ⟨(hverbatim d hd).newline, (hverbatim d hd).control⟩

/-! ## Escaped characters -/

/-- The backslashes at the end of a text. -/
def slashesAtEnd (cs : List Char) : Nat :=
  (cs.reverse.takeWhile (· == '\\')).length

/-- Whether a scan that starts outside an escape is behind a backslash that escapes what follows. -/
def escapesNext (cs : List Char) : Bool :=
  cs.foldl (fun escaped c => c == '\\' && !escaped) false

/-- The backslashes at the end of a text escape what follows if their number is odd. -/
theorem escapesNext_iff (cs : List Char) : escapesNext cs = true ↔ slashesAtEnd cs % 2 = 1 := by
  have hreversed : ∀ cs : List Char, cs.foldr (fun c escaped => c == '\\' && !escaped) false = true ↔
      (cs.takeWhile (· == '\\')).length % 2 = 1 := by
    intro cs
    induction cs with
    | nil => decide
    | cons c cs ih =>
        rw [List.foldr_cons, List.takeWhile_cons]
        by_cases hc : (c == '\\') = true
        · rw [hc, Bool.true_and, if_pos rfl, List.length_cons, Bool.not_eq_true', ← Bool.not_eq_true, ih]
          omega
        · rw [Bool.eq_false_iff.mpr hc, Bool.false_and, if_neg Bool.false_ne_true]
          decide
  have hfold := hreversed cs.reverse
  rw [List.foldr_reverse] at hfold
  exact hfold

/-- What the lexer passes over in a string is escaped if it is a quote or ends a line. -/
theorem stringLength_passed {before after : List Char} {escaped : Bool}
    (h : before.length < stringLength q escaped (before ++ c :: after)) (hc : (c == q || isNewline c) = true) :
    before.foldl (fun escaped c => c == '\\' && !escaped) escaped = true := by
  induction before generalizing escaped with
  | nil =>
      rw [List.nil_append, stringLength, hc, Bool.true_and] at h
      cases escaped with
      | false => exact absurd h (by simp)
      | true => rfl
  | cons d before ih =>
      rw [List.cons_append, stringLength] at h
      split at h
      · exact absurd h (Nat.not_lt_zero _)
      · exact ih (Nat.lt_of_succ_lt_succ h)

/-! ## Literals -/

/-- What stands between the quotes of a literal. -/
def literalBody (s : String) : List Char :=
  s.toList.flatMap literalChar

theorem literal_toList (s : String) : (literal s).toList = '\x22' :: (literalBody s ++ ['\x22']) := by
  simp [literal, literalBody]

/-- The lexer finds the end of a literal. -/
theorem literalBody_length (s : String) (after : List Char) :
    stringLength '\x22' false (literalBody s ++ '\x22' :: after) = (literalBody s).length := by
  unfold literalBody
  induction s.toList with
  | nil =>
      rw [List.flatMap_nil, List.nil_append, stringLength, if_pos (by decide)]
      rfl
  | cons c cs ih =>
      rw [List.flatMap_cons, List.append_assoc, stringLength_spelling (literalChar_spelling c), ih, List.length_append]

/-- **Quotes inside a literal are escaped.** -/
theorem literalBody_quotes {s : String} {before after : List Char}
    (h : literalBody s = before ++ '\x22' :: after) : slashesAtEnd before % 2 = 1 := by
  have hlength := literalBody_length s []
  rw [h, List.append_assoc, List.cons_append] at hlength
  have hlt : before.length < (before ++ '\x22' :: after).length := by simp
  rw [← hlength] at hlt
  exact (escapesNext_iff before).mp (stringLength_passed hlt (by decide))

/-- **Nothing inside a literal ends a line or is a control character.** -/
theorem literalBody_visible {s : String} (h : c ∈ literalBody s) : isNewline c = false ∧ isControl c = false := by
  obtain ⟨d, -, hd⟩ := List.mem_flatMap.mp h
  exact (literalChar_spelling d).visible c hd

/-- **A literal is one token** of the script language, whatever stands before it and behind it. -/
theorem literal_next {s : String} {lx : Lexer} {after : List Char} (h : lx.rest = (literal s).toList ++ after) :
    lx.next = (.leaf (.script .str) (literal s) ⟨lx.place, lx.place + (literal s).length⟩,
      lx.advance (literal s).length) := by
  have hlength : (literal s).length = (literalBody s).length + 2 := by
    rw [← String.length_toList, literal_toList, List.length_cons, List.length_append]
    rfl
  have hrest : lx.rest = '\x22' :: (literalBody s ++ '\x22' :: after) := by
    rw [h, literal_toList, List.cons_append, List.append_assoc]
    rfl
  have hlexeme : lexeme lx.before '\x22' (literalBody s ++ '\x22' :: after) = ⟨.ok .str, (literal s).length⟩ := by
    have hstring : lexeme lx.before '\x22' (literalBody s ++ '\x22' :: after) =
        stringLexeme '\x22' (literalBody s ++ '\x22' :: after) := rfl
    rw [hstring, stringLexeme, literalBody_length, List.drop_left, hlength]
    rfl
  have htext : String.ofList (lx.rest.take (literal s).length) = literal s := by
    rw [h, ← String.length_toList, List.take_left, String.ofList_toList]
  unfold Lexer.next
  split
  · rename_i hnil
    rw [hrest] at hnil
    exact absurd hnil (List.cons_ne_nil _ _)
  · rename_i c cs hcons
    obtain ⟨rfl, rfl⟩ := List.cons.inj (hrest.symm.trans hcons)
    rw [hlexeme]
    dsimp only
    rw [htext]

/-- **A literal denotes its text.** -/
theorem literal_value (s : String) : stringValue? (literal s).toList = some (utf16 s.toList) := by
  have hbody : stringBody? '\x22' (literalBody s ++ ['\x22']) = some (utf16 s.toList, []) := by
    unfold literalBody
    induction s.toList with
    | nil =>
        rw [List.flatMap_nil, List.nil_append, stringBody?, if_pos (by decide)]
        rfl
    | cons c cs ih =>
        rw [List.flatMap_cons, List.append_assoc, stringBody?_spelling (literalChar_spelling c), ih]
        rfl
  rw [literal_toList, stringValue?, if_pos (by decide), hbody]

end ComponentMarkup.Program
