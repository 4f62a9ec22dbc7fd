import ComponentMarkup.Proofs.Script.Splice
import Mathlib.Data.List.Chain

/-!
# The ends of a printed script

Printed script loses the white space at its ends, and a list of attributes also the comma at its end.  Nothing
else is lost: what is cut off at the end are whole parts of the script, since no token and no expression in the
place of a command ends in white space, and only the comma ends in one.

* `Trimmed` — a text that does not end in white space;
* `Spelled.cut` — where the printed parts end that hold tokens;
* `Core.tokens` — the tokens of what is printed without the white space around it;
* `Core.comma` — a comma at the end of it is the last token of the script;
* `Core.list_tokens` — the tokens of a list without a comma at its end.
-/

namespace ComponentMarkup.Script

open ComponentMarkup.Text ComponentMarkup.Tree

variable {k : ScriptKind} {c : Char} {cs rest before : List Char} {fresh : Bool} {p : Part} {ps qs : List Part}

/-- A text of white space. -/
def White (cs : List Char) : Prop :=
  ∀ c ∈ cs, isWhitespace c = true

/-- A text that does not end in white space. -/
def Trimmed (cs : List Char) : Prop :=
  ∀ c ∈ cs.getLast?, isWhitespace c = false

theorem Trimmed.nil : Trimmed [] :=
  fun c hc => absurd hc (Option.not_mem_none c)

theorem Trimmed.append {xs ys : List Char} (h : Trimmed ys) (hne : ys ≠ []) : Trimmed (xs ++ ys) := by
  intro c hc
  rw [List.getLast?_append_of_ne_nil _ hne] at hc
  exact h c hc

/-- The end of a text that does not end in white space does not. -/
theorem Trimmed.right {xs ys : List Char} (h : Trimmed (xs ++ ys)) : Trimmed ys := by
  intro c hc
  have hne : ys ≠ [] := by
    rintro rfl
    exact Option.not_mem_none c hc
  exact h c (by rw [List.getLast?_append_of_ne_nil _ hne]; exact hc)

/-- A text and the white space behind it are told apart in one way only. -/
theorem Trimmed.unique {xs ys ws vs : List Char} (h : xs ++ ws = ys ++ vs) (hx : Trimmed xs) (hy : Trimmed ys)
    (hw : White ws) (hv : White vs) : xs = ys := by
  -- what one text is longer by ends in white space
  have hnone : ∀ {zs as : List Char}, Trimmed (zs ++ as) → White as → as = [] := by
    intro zs as hsolid hwhite
    cases hlast : as.getLast? with
    | none => exact List.getLast?_eq_none_iff.mp hlast
    | some b =>
        have hblack := hsolid.right b hlast
        rw [hwhite b (List.mem_of_getLast? hlast)] at hblack
        exact absurd hblack (Ne.symm Bool.false_ne_true)
  rcases List.append_eq_append_iff.mp h with ⟨as, rfl, rfl⟩ | ⟨bs, rfl, rfl⟩
  · rw [hnone hy fun b hb => hw b (List.mem_append_left _ hb), List.append_nil]
  · rw [hnone hx fun b hb => hv b (List.mem_append_left _ hb), List.append_nil]

/-! ## How tokens end -/

/-- The last character of a token that is neither white space nor a comment.  Only a comma ends in one. -/
theorem lexeme_last (h : lexeme before c (cs ++ rest) = ⟨.ok k, cs.length + 1⟩)
    (hk : (Kind.script k).isTrivia = false) :
    ∃ d, (c :: cs).getLast? = some d ∧ isWhitespace d = false ∧ (d = ',' → k = .comma) := by
  have hshape := lexeme_shape before c (cs ++ rest) k (congrArg Lexeme.kind h)
  have htake : (c :: (cs ++ rest)).take (cs.length + 1) = c :: cs := by
    rw [List.take_succ_cons, List.take_left]
  have hlast : (c :: (cs ++ rest))[cs.length]? = (c :: cs).getLast? := by
    rw [List.getLast?_eq_getElem?, ← List.cons_append, List.getElem?_append_left (Nat.lt_succ_self _)]
    rfl
  rw [h] at hshape
  unfold TokenShape at hshape
  rw [htake] at hshape
  split at hshape
  · exact absurd hk (by decide)
  · exact absurd hk (by decide)
  · exact absurd hk (by decide)
  · exact ⟨'.', by rw [hshape]; rfl, by decide, fun hd => absurd hd (by decide)⟩
  · exact ⟨'.', by rw [hshape]; rfl, by decide, fun hd => absurd hd (by decide)⟩
  · exact ⟨'.', by rw [hshape]; rfl, by decide, fun hd => absurd hd (by decide)⟩
  · exact ⟨',', by rw [hshape]; rfl, by decide, fun _ => rfl⟩
  · obtain ⟨_, d, hd, _, hcomma, hwhite⟩ := hshape
    exact ⟨d, hlast.symm.trans hd, hwhite, fun heq => absurd heq hcomma⟩

/-- A token that closes is no comma. -/
theorem Closes.ne_comma {n : Nat} (hc : Closes c) (h : lexeme before c cs = ⟨.ok k, n⟩) : k ≠ .comma := by
  rintro rfl
  have hshape : (c :: cs).take n = [','] := by
    have hcomma := lexeme_shape before c cs .comma (congrArg Lexeme.kind h)
    rwa [h] at hcomma
  obtain ⟨hpos, _⟩ := lexeme_fits before c cs
  rw [h] at hpos
  obtain ⟨m, rfl⟩ : ∃ m, n = m + 1 := ⟨n - 1, by dsimp only at hpos; omega⟩
  obtain ⟨rfl, _⟩ := List.cons.inj hshape
  rcases hc with hstart | hmem
  · exact absurd hstart (by decide)
  · exact absurd hmem (by decide)

/-- A text that closes ends neither in white space nor in a comma. -/
theorem Closed.last_char (h : Closed cs) :
    ∃ d, cs.getLast? = some d ∧ isWhitespace d = false ∧ d ≠ ',' := by
  induction h with
  | @last before c cs k closes token =>
      have hhere : lexeme before c (cs ++ []) = ⟨.ok k, cs.length + 1⟩ := by rwa [List.append_nil]
      obtain ⟨d, hd, hwhite, hcomma⟩ := lexeme_last hhere (closes.not_trivia token)
      exact ⟨d, hd, hwhite, fun heq => closes.ne_comma token (hcomma heq)⟩
  | cons _ _ others ih =>
      obtain ⟨d, hd, hsolid⟩ := ih
      refine ⟨d, ?_, hsolid⟩
      rw [List.getLast?_append_of_ne_nil _ others.ne_nil]
      exact hd

/-- The last token of a text that closes is no comma. -/
theorem Closed.last_token (h : Closed cs) (fresh : Bool) :
    ∃ t, (tokensOf fresh cs).getLast? = some t ∧ t.kind ≠ .script .comma := by
  induction h generalizing fresh with
  | @last before c cs k closes token =>
      have hhere : lexeme before c (cs ++ []) = ⟨.ok k, cs.length + 1⟩ := by rwa [List.append_nil]
      have htokens : tokensOf fresh (c :: cs ++ []) = ⟨.script k.category, c :: cs, fresh⟩ :: tokensOf false [] :=
        tokensOf_token hhere (closes.not_trivia token)
      rw [List.append_nil, tokensOf_nil] at htokens
      rw [htokens]
      refine ⟨_, rfl, fun heq => closes.ne_comma token ?_⟩
      exact eq_of_category (Kind.script.inj heq) (by decide)
  | @cons before c cs more k token _ _ ih =>
      rw [tokensOf_lexeme token]
      split
      · exact ih _
      · obtain ⟨t, ht, hkind⟩ := ih false
        exact ⟨t, by rw [List.getLast?_cons, ht]; rfl, hkind⟩

/-! ## Parts without and with tokens -/

/-- White space or a comment. -/
def Part.IsBlank (p : Part) : Prop :=
  (Kind.script p.kind).isTrivia = true

theorem isTrivia_script (h : (Kind.script k).isTrivia = true) :
    k = .space ∨ k = .lineComment ∨ k = .blockComment := by
  unfold Kind.isTrivia at h
  split at h <;> simp_all

/-- White space and comments are printed as white space. -/
theorem Part.Printed.white (h : p.Printed) (hreads : p.ReadsIn rest) (hblank : p.IsBlank) :
    White p.printed := by
  unfold Part.Printed at h
  rcases isTrivia_script hblank with hk | hk | hk
  · rw [hk] at h
    rw [White, h]
    exact hreads.white hk
  · rw [hk] at h
    rw [White, h]
    exact fun c hc => absurd hc List.not_mem_nil
  · rw [hk] at h
    rw [White, h]
    intro c hc
    obtain rfl := List.mem_singleton.mp hc
    decide

/-- What is printed for a token or a command does not end in white space, and only a comma ends in one. -/
theorem Part.Printed.last (h : p.Printed) (hreads : p.ReadsIn rest) (hblank : ¬ p.IsBlank) :
    ∃ d, p.printed.getLast? = some d ∧ isWhitespace d = false ∧ (d = ',' → p.kind = .comma) := by
  have hline : p.kind ≠ .lineComment := fun hk => hblank (by rw [Part.IsBlank, hk]; rfl)
  have hblock : p.kind ≠ .blockComment := fun hk => hblank (by rw [Part.IsBlank, hk]; rfl)
  by_cases hembed : p.kind = .embed
  · have hoperand : IsOperand p.printed := by simpa [Part.Printed, hembed] using h
    obtain ⟨d, hd, hwhite, hcomma⟩ := hoperand.closed.last_char
    exact ⟨d, hd, hwhite, fun heq => absurd heq hcomma⟩
  · obtain ⟨before, c, cs, l, hchars, htoken, hcategory⟩ := hreads
    have hk : (Kind.script l).isTrivia = false := by
      rw [← isTrivia_category, hcategory, isTrivia_category]
      exact Bool.eq_false_iff.mpr hblank
    obtain ⟨d, hd, hwhite, hcomma⟩ := lexeme_last htoken hk
    rw [h.ordinary hline hblock hembed, hchars]
    refine ⟨d, hd, hwhite, fun heq => ?_⟩
    rw [hcomma heq] at hcategory
    exact (eq_of_category hcategory.symm (by decide))

/-! ## Scripts in two parts -/

theorem sourceText_append (ps qs : List Part) : sourceText (ps ++ qs) = sourceText ps ++ sourceText qs := by
  rw [sourceText, List.map_append, writing_append]
  rfl

theorem printedText_append (ps qs : List Part) : printedText (ps ++ qs) = printedText ps ++ printedText qs :=
  List.flatMap_append

/-- Parts are spelled one after the other. -/
theorem spelled_append : Spelled (ps ++ qs) rest ↔ Spelled ps (sourceText qs ++ rest) ∧ Spelled qs rest := by
  induction ps with
  | nil => exact ⟨fun h => ⟨trivial, h⟩, fun h => h.2⟩
  | cons p ps ih =>
      rw [List.cons_append, Spelled, Spelled, ih, sourceText_append, List.append_assoc, and_assoc, and_assoc]

theorem Separate.left (h : Separate (ps ++ qs)) : Separate ps :=
  List.IsChain.left_of_append h

/-- What a part adds to the tokens of a script does not depend on the parts behind it. -/
theorem splice_cons (p : Part) (fresh : Bool) :
    ∃ ts fresh', ∀ ps, splice fresh (p :: ps) = ts ++ splice fresh' ps := by
  cases hk : p.kind
  case space => exact ⟨[], fresh || p.chars.any isNewline, fun ps => by rw [splice, hk]; rfl⟩
  case lineComment => exact ⟨[], fresh, fun ps => by rw [splice, hk]; rfl⟩
  case blockComment => exact ⟨[], fresh, fun ps => by rw [splice, hk]; rfl⟩
  case embed => exact ⟨tokensOf fresh p.printed, false, fun ps => by rw [splice, hk]⟩
  all_goals exact ⟨[⟨.script p.kind.category, p.chars, fresh⟩], false, fun ps => by rw [splice, hk]; rfl⟩

/-- The tokens of a script in two parts. -/
theorem splice_append (ps : List Part) (fresh : Bool) :
    ∃ fresh', ∀ qs, splice fresh (ps ++ qs) = splice fresh ps ++ splice fresh' qs := by
  induction ps generalizing fresh with
  | nil => exact ⟨fresh, fun _ => rfl⟩
  | cons p ps ih =>
      obtain ⟨ts, next, hp⟩ := splice_cons p fresh
      obtain ⟨fresh', hps⟩ := ih next
      refine ⟨fresh', fun qs => ?_⟩
      rw [List.cons_append, hp, hp, hps, List.append_assoc]

/-- White space and comments hold no tokens. -/
theorem splice_blank (h : ∀ p ∈ ps, p.IsBlank) : splice fresh ps = [] := by
  induction ps generalizing fresh with
  | nil => rfl
  | cons p ps ih =>
      have hothers : ∀ {fresh}, splice fresh ps = [] := ih fun q hq => h q (List.mem_cons_of_mem p hq)
      rcases isTrivia_script (h p List.mem_cons_self) with hk | hk | hk
      · rw [splice, hk]
        exact hothers
      · rw [splice, hk]
        exact hothers
      · rw [splice, hk]
        exact hothers

/-! ## The ends of what is printed -/

/-- Where the parts of a script end that hold tokens. -/
structure Cut (ps qs ws : List Part) : Prop where
  parts : ps = qs ++ ws
  white : White (printedText ws)
  blank : ∀ w ∈ ws, w.IsBlank
  last : qs = [] ∨ ∃ os o d, qs = os ++ [o] ∧ o.printed.getLast? = some d ∧ isWhitespace d = false ∧
    (d = ',' → o.kind = .comma) ∧ ¬ o.IsBlank

/-- White space and comments at the end of a script can be cut off. -/
theorem Spelled.cut (h : Spelled ps rest) : ∃ qs ws, Cut ps qs ws := by
  induction ps using List.reverseRecOn generalizing rest with
  | nil =>
      exact ⟨[], [], rfl, fun c hc => absurd hc List.not_mem_nil, fun w hw => absurd hw List.not_mem_nil,
        .inl rfl⟩
  | append_singleton ps p ih =>
      obtain ⟨hps, hreads, hprinted, _⟩ := spelled_append.mp h
      by_cases hblank : p.IsBlank
      · obtain ⟨qs, ws, hcut⟩ := ih hps
        refine ⟨qs, ws ++ [p], ?_, ?_, ?_, hcut.last⟩
        · rw [hcut.parts, List.append_assoc]
        · rw [printedText_append]
          intro c hc
          rcases List.mem_append.mp hc with hc | hc
          · exact hcut.white c hc
          · rw [printedText, List.flatMap_cons, List.flatMap_nil, List.append_nil] at hc
            exact hprinted.white hreads hblank c hc
        · intro w hw
          rcases List.mem_append.mp hw with hw | hw
          · exact hcut.blank w hw
          · obtain rfl := List.mem_singleton.mp hw
            exact hblank
      · obtain ⟨d, hd, hwhite, hcomma⟩ := hprinted.last hreads hblank
        refine ⟨ps ++ [p], [], (List.append_nil _).symm, fun c hc => absurd hc List.not_mem_nil,
          fun w hw => absurd hw List.not_mem_nil, .inr ⟨ps, p, d, rfl, hd, hwhite, hcomma, hblank⟩⟩

/-- The last character printed for parts is that of the last of them. -/
theorem getLast?_printedText {d : Char} (h : p.printed.getLast? = some d) :
    (printedText (ps ++ [p])).getLast? = some d := by
  rw [printedText_append, printedText, printedText, List.flatMap_cons, List.flatMap_nil, List.append_nil,
    List.getLast?_append, h]
  rfl

theorem Cut.trimmed {ws : List Part} (h : Cut ps qs ws) : Trimmed (printedText qs) := by
  rcases h.last with rfl | ⟨os, o, d, rfl, hd, hwhite, _⟩
  · intro c hc
    exact absurd hc (Option.not_mem_none c)
  · intro c hc
    rw [getLast?_printedText hd] at hc
    obtain rfl := Option.some.inj hc
    exact hwhite

/-- White space in front of a text that starts a line does not matter. -/
theorem tokensOf_front (h : White cs) : tokensOf true (cs ++ rest) = tokensOf true rest := by
  rw [tokensOf_white h, Bool.true_or]

/-- What is printed for a script, with the white space around it told apart. -/
structure Core (ps : List Part) (front core back : List Char) : Prop where
  text : printedText ps = front ++ core ++ back
  front : White front
  trimmed : Trimmed core
  back : White back

/-- If only white space is printed, the parts that hold tokens are printed as nothing. -/
theorem Core.nothing {ws : List Part} {front back : List Char} (h : Core ps front [] back)
    (hcut : Cut ps qs ws) : printedText qs = [] := by
  have hwhite : White (front ++ [] ++ back) := by
    intro c hc
    rw [List.append_nil] at hc
    exact (List.mem_append.mp hc).elim (h.front c) (h.back c)
  have htext : printedText qs ++ printedText ws = [] ++ (front ++ [] ++ back) := by
    rw [← printedText_append, ← hcut.parts, h.text, List.nil_append]
  exact hcut.trimmed.unique htext .nil hcut.white hwhite

/-- What the parts that hold tokens are printed as. -/
theorem Core.cut {ws : List Part} {front core back : List Char} (h : Core ps front core back)
    (hcut : Cut ps qs ws) : tokensOf true (printedText qs) = tokensOf true core ∧
      (core ≠ [] → printedText qs = front ++ core) := by
  by_cases hcore : core = []
  · subst hcore
    rw [h.nothing hcut]
    exact ⟨rfl, fun hne => absurd rfl hne⟩
  · have htext : printedText qs ++ printedText ws = front ++ core ++ back := by
      rw [← printedText_append, ← hcut.parts, h.text]
    have hqs := hcut.trimmed.unique htext (h.trimmed.append hcore) hcut.white h.back
    rw [hqs, tokensOf_front h.front]
    exact ⟨rfl, fun _ => rfl⟩

/-- **The tokens of a printed script without the white space around it** are those of the script. -/
theorem Core.tokens {front core back : List Char} (h : Core ps front core back) (hspelled : Spelled ps rest)
    (hseparate : Separate ps) : tokensOf true core = splice true ps := by
  obtain ⟨qs, ws, hcut⟩ := hspelled.cut
  have hqs : Spelled qs (sourceText ws ++ rest) := by
    rw [hcut.parts] at hspelled
    exact (spelled_append.mp hspelled).1
  have hseparate' : Separate qs := by
    rw [hcut.parts] at hseparate
    exact hseparate.left
  obtain ⟨fresh', hsplice⟩ := splice_append qs true
  rw [← (h.cut hcut).1, tokensOf_printedText hqs hseparate', hcut.parts, hsplice, splice_blank hcut.blank,
    List.append_nil]

/-! ## A comma at the end -/

/-- The tokens of a list without a comma at its end. -/
def withoutComma (ts : List Token) : List Token :=
  if ts.getLast?.map Token.kind = some (.script .comma) then ts.dropLast else ts

/-- A text without a comma at its end. -/
def dropComma (cs : List Char) : List Char :=
  if cs.getLast? = some ',' then cs.dropLast else cs

/-- A comma is printed as one. -/
theorem Part.Printed.comma (h : p.Printed) (hreads : p.ReadsIn rest) (hk : p.kind = .comma) :
    p.printed = [','] ∧ p.chars = [','] := by
  have hsame := h.ordinary (by rw [hk]; decide) (by rw [hk]; decide) (by rw [hk]; decide)
  obtain ⟨before, c, cs, l, hchars, htoken, hcategory⟩ := hreads
  rw [hk] at hcategory
  obtain rfl := eq_of_category hcategory (by decide)
  have hshape : (c :: (cs ++ rest)).take (lexeme before c (cs ++ rest)).length = [','] :=
    lexeme_shape before c (cs ++ rest) .comma (congrArg Lexeme.kind htoken)
  rw [htoken, List.take_succ_cons, List.take_left] at hshape
  rw [hsame, hchars]
  exact ⟨hshape, hshape⟩

/-- The last token of a part that is no comma is none. -/
theorem Part.Printed.last_token (h : p.Printed) (hblank : ¬ p.IsBlank) (hk : p.kind ≠ .comma)
    (fresh : Bool) :
    ∃ t, (splice fresh [p]).getLast? = some t ∧ t.kind ≠ .script .comma := by
  unfold splice
  split
  · rename_i hspace
    exact absurd (by rw [Part.IsBlank, hspace]; rfl) hblank
  · rename_i hline
    exact absurd (by rw [Part.IsBlank, hline]; rfl) hblank
  · rename_i hblock
    exact absurd (by rw [Part.IsBlank, hblock]; rfl) hblank
  · rename_i hembed
    have hoperand : IsOperand p.printed := by simpa [Part.Printed, hembed] using h
    obtain ⟨t, ht, hkind⟩ := hoperand.closed.last_token fresh
    exact ⟨t, by rw [splice, List.append_nil, ht], hkind⟩
  · refine ⟨_, rfl, fun heq => hk ?_⟩
    exact eq_of_category (Kind.script.inj heq) (by decide)

/-- What is printed for the parts that hold tokens, told by its last character. -/
theorem Core.getLast? {ws : List Part} {front core back : List Char} (h : Core ps front core back)
    (hcut : Cut ps qs ws) {d : Char} (hd : (printedText qs).getLast? = some d) : core.getLast? = some d := by
  have hcore : core ≠ [] := by
    rintro rfl
    rw [h.nothing hcut] at hd
    exact absurd hd (Option.some_ne_none d).symm
  rw [(h.cut hcut).2 hcore, List.getLast?_append_of_ne_nil _ hcore] at hd
  exact hd

/-- What is left of the script when the comma at its end is left out. -/
theorem Core.comma {front core back : List Char} (h : Core ps front core back) (hspelled : Spelled ps rest)
    (hseparate : Separate ps) (hlast : core.getLast? = some ',') :
    ∃ os rest', Spelled os rest' ∧ Separate os ∧ printedText os = front ++ core.dropLast ∧
      withoutComma (splice true ps) = splice true os := by
  obtain ⟨qs, ws, hcut⟩ := hspelled.cut
  have hcore : core ≠ [] := by
    rintro rfl
    exact absurd hlast (Option.some_ne_none ',').symm
  have htext := (h.cut hcut).2 hcore
  obtain ⟨core', rfl⟩ := List.getLast?_eq_some_iff.mp hlast
  rcases hcut.last with rfl | ⟨os, o, d, rfl, hd, _, hcomma, _⟩
  · have hnil : core' ++ [','] = [] := (List.append_eq_nil_iff.mp htext.symm).2
    exact absurd (List.append_eq_nil_iff.mp hnil).2 (List.cons_ne_nil _ _)
  · have hparts : ps = os ++ (o :: ws) := by rw [hcut.parts, List.append_assoc]; rfl
    have hd' := h.getLast? hcut (getLast?_printedText hd)
    rw [List.getLast?_concat] at hd'
    have hk := hcomma (Option.some.inj hd').symm
    rw [hparts] at hspelled hseparate
    obtain ⟨hos, hreads, hprinted, _⟩ := spelled_append.mp hspelled
    obtain ⟨hcommaPrinted, hcommaChars⟩ := hprinted.comma hreads hk
    refine ⟨os, _, hos, hseparate.left, ?_, ?_⟩
    · rw [printedText_append, ← List.append_assoc] at htext
      have hone : printedText [o] = [','] := by
        rw [printedText, List.flatMap_cons, List.flatMap_nil, List.append_nil, hcommaPrinted]
      rw [hone] at htext
      rw [List.dropLast_concat]
      exact (List.append_left_inj [',']).mp htext
    · obtain ⟨fresh', hsplice⟩ := splice_append os true
      have htokens : splice true ps = splice true os ++ [⟨.script .comma, [','], fresh'⟩] := by
        rw [hparts, hsplice, splice, hk, hcommaChars]
        dsimp only
        rw [splice_blank hcut.blank]
        rfl
      rw [withoutComma, htokens, List.getLast?_concat, List.dropLast_concat]
      rfl

/-- Without a comma at the end of what is printed there is none at the end of the script. -/
theorem Core.no_comma {front core back : List Char} (h : Core ps front core back) (hspelled : Spelled ps rest)
    (hlast : core.getLast? ≠ some ',') : withoutComma (splice true ps) = splice true ps := by
  obtain ⟨qs, ws, hcut⟩ := hspelled.cut
  have hsplice : splice true ps = splice true qs := by
    obtain ⟨fresh', happend⟩ := splice_append qs true
    rw [hcut.parts, happend, splice_blank hcut.blank, List.append_nil]
  rw [hsplice]
  rcases hcut.last with rfl | ⟨os, o, d, rfl, hd, _, _, hblank⟩
  · rfl
  · have hspelled' : Spelled (os ++ [o]) (sourceText ws ++ rest) := by
      rw [hcut.parts] at hspelled
      exact (spelled_append.mp hspelled).1
    obtain ⟨_, hreads, hprinted, _⟩ := spelled_append.mp hspelled'
    have hk : o.kind ≠ .comma := by
      intro hk
      have hcomma : o.printed.getLast? = some ',' := by rw [(hprinted.comma hreads hk).1]; rfl
      exact hlast (h.getLast? hcut (getLast?_printedText hcomma))
    obtain ⟨fresh', happend⟩ := splice_append os true
    obtain ⟨t, ht, hkind⟩ := hprinted.last_token hblank hk fresh'
    rw [happend, withoutComma, List.getLast?_append, ht, if_neg]
    intro heq
    exact hkind (Option.some.inj heq)

/-- **The tokens of a printed list without the comma at its end**, and without the white space around it. -/
theorem Core.list_tokens {front core back front' core' back' : List Char} (h : Core ps front core back)
    (hspelled : Spelled ps rest) (hseparate : Separate ps)
    (htext : dropComma core = front' ++ core' ++ back') (hfront : White front') (htrimmed : Trimmed core')
    (hback : White back') : tokensOf true core' = withoutComma (splice true ps) := by
  have hwhite : ∀ {xs ys : List Char}, White xs → White ys → White (xs ++ ys) := by
    intro xs ys hx hy c hc
    exact (List.mem_append.mp hc).elim (hx c) (hy c)
  unfold dropComma at htext
  split at htext
  · rename_i hlast
    obtain ⟨os, rest', hos, hseparate', hprinted, htokens⟩ := h.comma hspelled hseparate hlast
    have hcore : Core os (front ++ front') core' back' := by
      refine ⟨?_, hwhite h.front hfront, htrimmed, hback⟩
      rw [hprinted, htext, List.append_assoc, List.append_assoc, List.append_assoc]
    rw [htokens]
    exact hcore.tokens hos hseparate'
  · rename_i hlast
    have hcore : Core ps (front ++ front') core' (back' ++ back) := by
      refine ⟨?_, hwhite h.front hfront, htrimmed, hwhite hback h.back⟩
      rw [h.text, htext]
      simp only [List.append_assoc]
    rw [h.no_comma hspelled hlast]
    exact hcore.tokens hspelled hseparate

end ComponentMarkup.Script
