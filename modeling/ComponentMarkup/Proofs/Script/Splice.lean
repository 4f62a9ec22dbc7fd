import ComponentMarkup.Proofs.Script.Legible
import ComponentMarkup.Proofs.Script.TokenList

/-!
# Script with commands replaced

A script is printed with its comments left out and an expression in the place of every embedded command.  The
tokens of what is printed are those of the script, with the tokens of the expressions in the place of the
commands, as long as no word touches an expression that starts or ends with one.

* `Part`, `Spelled` — a script as the lexer reads it, part by part;
* `IsOperand` — what may be printed in the place of a command;
* `splice` — the tokens of a script with those of the expressions in the place of commands;
* `tokensOf_printedText` — the tokens of what is printed.
-/

namespace ComponentMarkup.Script

open ComponentMarkup.Text ComponentMarkup.Tree

/-- An atom of a script with what is printed for it. -/
structure Part extends Atom where
  /-- What is printed for it. -/
  printed : List Char
  deriving DecidableEq

/-- The characters of a script. -/
def sourceText (parts : List Part) : List Char :=
  writing (parts.map Part.toAtom)

/-- What is printed for a script. -/
def printedText (parts : List Part) : List Char :=
  parts.flatMap Part.printed

/-- What may be printed in the place of a command: whole tokens that neither continue an operator in front of
them nor are continued by what follows, unless they end in a word. -/
structure IsOperand (cs : List Char) : Prop where
  closed : Closed cs
  starts : Starts isCalm cs

/-- What is printed for a part of a script. -/
def Part.Printed (p : Part) : Prop :=
  match p.kind with
  | .lineComment => p.printed = []
  | .blockComment => p.printed = [' ']
  | .embed => IsOperand p.printed
  | _ => p.printed = p.chars

/-- The parts of a script as the lexer reads them, in front of a text that follows the script. -/
def Spelled : List Part → List Char → Prop
  | [], _ => True
  | p :: ps, rest => p.ReadsIn (sourceText ps ++ rest) ∧ p.Printed ∧ Spelled ps rest

/-- The tokens of a script with those of expressions in the place of commands.  Line ends count in white space
only. -/
def splice : (fresh : Bool) → List Part → List Token
  | _, [] => []
  | fresh, p :: ps =>
    match p.kind with
    | .space => splice (fresh || p.chars.any isNewline) ps
    | .lineComment | .blockComment => splice fresh ps
    | .embed => tokensOf fresh p.printed ++ splice false ps
    | k => ⟨.script k.category, p.chars, fresh⟩ :: splice false ps

variable {p : Part} {ps : List Part} {rest : List Char} {fresh : Bool}

/-! ## Single parts -/

/-- Kinds of the same category are the same, words apart. -/
theorem eq_of_category {k l : ScriptKind} (h : k.category = l.category) (hl : l.category ≠ .ident) : k = l := by
  have hself : ∀ {j : ScriptKind}, j.category ≠ .ident → j.category = j := by
    intro j hj
    unfold ScriptKind.category at hj ⊢
    split
    · rename_i hword
      rw [if_pos hword] at hj
      exact absurd rfl hj
    · rfl
  rw [← hself hl, ← h, hself (h ▸ hl)]

theorem isWhitespace_of_isNewline {c : Char} (h : isNewline c = true) : isWhitespace c = true := by
  simp only [isNewline, isWhitespace, Bool.or_eq_true, Bool.and_eq_true, decide_eq_true_eq, beq_iff_eq] at h ⊢
  omega

/-- White space is printed as it is. -/
theorem Atom.ReadsIn.white {a : Atom} (h : a.ReadsIn rest) (hk : a.kind = .space) :
    ∀ c ∈ a.chars, isWhitespace c = true := by
  obtain ⟨before, c, cs, l, hchars, htoken, hcategory⟩ := h
  rw [hk] at hcategory
  obtain rfl := eq_of_category hcategory (by decide)
  have hshape := lexeme_shape before c (cs ++ rest) .space (congrArg Lexeme.kind htoken)
  rw [htoken] at hshape
  rw [hchars]
  have htake : (c :: (cs ++ rest)).take (cs.length + 1) = c :: cs := by
    rw [List.take_succ_cons, List.take_left]
  intro d hd
  exact hshape d (by rw [htake]; exact hd)

/-- Behind a comment up to the end of its line that line ends. -/
theorem Atom.ReadsIn.lineEnd {a : Atom} (h : a.ReadsIn rest) (hk : a.kind = .lineComment) :
    Starts isNewline rest := by
  obtain ⟨before, c, cs, l, hchars, htoken, hcategory⟩ := h
  rw [hk] at hcategory
  obtain rfl := eq_of_category hcategory (by decide)
  obtain ⟨more, hshape⟩ := lexeme_shape before c (cs ++ rest) .lineComment (congrArg Lexeme.kind htoken)
  rw [htoken, List.take_succ_cons, List.take_left] at hshape
  obtain ⟨rfl, rfl⟩ := List.cons.inj hshape
  have hline : lexeme before '/' ('/' :: more ++ rest) =
      ⟨.ok .lineComment, runLength (fun d => !isNewline d) ('/' :: more ++ rest) + 1⟩ := rfl
  have hlength := Nat.succ.inj (congrArg Lexeme.length (hline.symm.trans htoken))
  intro d hd
  simpa using (runLength_append_eq hlength).2 d hd

/-- White space and comments in front of a text print nothing but white space. -/
theorem Part.Printed.ordinary (h : p.Printed) (hline : p.kind ≠ .lineComment) (hblock : p.kind ≠ .blockComment)
    (hembed : p.kind ≠ .embed) : p.printed = p.chars := by
  unfold Part.Printed at h
  split at h
  · exact absurd ‹_› hline
  · exact absurd ‹_› hblock
  · exact absurd ‹_› hembed
  · exact h

/-! ## What stands behind a part -/

theorem sourceText_cons (p : Part) (ps : List Part) (rest : List Char) :
    sourceText (p :: ps) ++ rest = p.chars ++ (sourceText ps ++ rest) := by
  rw [sourceText, List.map_cons, writing, List.flatMap_cons, List.append_assoc]
  rfl

theorem printedText_cons (p : Part) (ps : List Part) : printedText (p :: ps) = p.printed ++ printedText ps :=
  List.flatMap_cons

/-- Behind a comment up to the end of its line white space is printed, or nothing. -/
theorem Spelled.printed_lineEnd (h : Spelled ps rest) (hend : Starts isNewline (sourceText ps ++ rest)) :
    Starts isWhitespace (printedText ps) := by
  cases ps with
  | nil => exact .nil
  | cons q qs =>
      obtain ⟨⟨before, c, cs, l, hchars, htoken, hcategory⟩, hprinted, _⟩ := h
      rw [sourceText_cons, hchars] at hend
      have hwhite : isWhitespace c = true := isWhitespace_of_isNewline (starts_cons.mp hend)
      have hspace : l = .space := by
        unfold lexeme at htoken
        rw [if_pos hwhite] at htoken
        exact (Except.ok.inj (congrArg Lexeme.kind htoken)).symm
      have hkind : q.kind = .space := by
        rw [hspace] at hcategory
        exact eq_of_category hcategory.symm (by decide)
      rw [printedText_cons, hprinted.ordinary (by rw [hkind]; decide) (by rw [hkind]; decide)
        (by rw [hkind]; decide), hchars]
      exact starts_cons.mpr hwhite

/-- White space continues neither an operator nor a word. -/
theorem isCalm_of_isWhitespace {c : Char} (h : isWhitespace c = true) : isCalm c = true := by
  have hcalm : ∀ n ∈ whiteScalars, isCalm (Char.ofNat n) = true := by decide
  have hc := hcalm c.toNat (mem_whiteScalars h)
  rwa [Char.ofNat_toNat] at hc

/-- **What is printed for a script agrees with the script** behind whatever stands before it. -/
theorem Spelled.agree (h : Spelled ps rest) : Agree (sourceText ps ++ rest) (printedText ps) := by
  induction ps with
  | nil => exact ⟨[], rest, [], rfl, rfl, .inr ⟨.nil, fun hdot => absurd hdot (by simp)⟩⟩
  | cons p ps ih =>
      obtain ⟨hreads, hprinted, hspelled⟩ := h
      have hstop : ∀ {old new}, Starts isCalm new → Agree old new :=
        fun hcalm => ⟨[], _, _, rfl, rfl, .inr ⟨hcalm, fun hdot => absurd hdot (by simp)⟩⟩
      rw [sourceText_cons, printedText_cons]
      unfold Part.Printed at hprinted
      split at hprinted
      · rename_i hk
        rw [hprinted, List.nil_append]
        exact hstop ((hspelled.printed_lineEnd (hreads.lineEnd hk)).mono fun _ => isCalm_of_isWhitespace)
      · rw [hprinted]
        exact hstop (starts_cons.mpr (by decide))
      · obtain ⟨c, cs, hcs⟩ := List.exists_cons_of_ne_nil hprinted.closed.ne_nil
        have hstarts := hprinted.starts
        rw [hcs] at hstarts ⊢
        exact hstop (starts_cons.mpr (starts_cons.mp hstarts))
      · -- what is printed as it is joins what both texts share
        obtain ⟨before, c, cs, l, hchars, htoken, _⟩ := hreads
        obtain ⟨shared, old', new', hold, hnew, hends⟩ := ih hspelled
        refine ⟨p.chars ++ shared, old', new', ?_, ?_, ?_⟩
        · rw [hold, List.append_assoc]
        · rw [hprinted, hnew, List.append_assoc]
        · rcases hends with hcalm | ⟨hcalm, _⟩
          · exact .inl (by rw [List.any_append, hcalm, Bool.or_true])
          · refine .inr ⟨hcalm, fun hdot => ?_⟩
            -- a dot that is a token of its own is not followed by a digit
            rw [hchars, List.cons_append] at hdot
            obtain ⟨rfl, hempty⟩ := List.cons.inj hdot
            obtain ⟨rfl, rfl⟩ := List.append_eq_nil_iff.mp hempty
            rw [hold] at htoken
            have hdigit := lexeme_dot htoken
            intro d hd
            rw [List.nil_append, List.nil_append, show old'.head? = some d from hd] at hdigit
            simpa using hdigit

/-! ## Words at the edges of commands -/

/-- No word touches an expression that goes on with it, on either side of a command. -/
def Separate (ps : List Part) : Prop :=
  ps.IsChain fun p q => p.kind = .embed ∨ q.kind = .embed → Apart p.printed q.printed

theorem endsWord_of_white {cs : List Char} (h : Starts isWhitespace cs) : EndsWord cs :=
  h.mono fun c hc => by rw [isWordPart_of_isWhitespace hc]; rfl

/-- Whatever is printed for a part that is no command, it goes on with a word only if the part does. -/
theorem Part.Printed.endsWord (h : p.Printed) (hreads : p.ReadsIn rest) (hembed : p.kind ≠ .embed)
    (hsource : EndsWord (p.chars ++ rest)) : EndsWord p.printed := by
  obtain ⟨before, c, cs, l, hchars, _⟩ := hreads
  unfold Part.Printed at h
  split at h
  · rw [h]
    exact .nil
  · rw [h]
    exact starts_cons.mpr (by decide)
  · exact absurd ‹_› hembed
  · rw [h, hchars]
    rw [hchars] at hsource
    exact starts_cons.mpr (starts_cons.mp hsource)

/-- What is printed for a script goes on with a word only if what is printed for its first part does. -/
theorem Spelled.endsWord (h : Spelled ps rest) (hfirst : ∀ q ∈ ps.head?, EndsWord q.printed) :
    EndsWord (printedText ps) := by
  cases ps with
  | nil => exact .nil
  | cons q qs =>
      obtain ⟨hreads, hprinted, hspelled⟩ := h
      rw [printedText_cons]
      by_cases hk : q.kind = .lineComment
      · have hnone : q.printed = [] := by simpa [Part.Printed, hk] using hprinted
        rw [hnone, List.nil_append]
        exact endsWord_of_white (hspelled.printed_lineEnd (hreads.lineEnd hk))
      · have hne : q.printed ≠ [] := by
          obtain ⟨before, c, cs, l, hchars, _⟩ := hreads
          unfold Part.Printed at hprinted
          split at hprinted
          · exact absurd ‹_› hk
          · rw [hprinted]
            exact List.cons_ne_nil _ _
          · exact hprinted.closed.ne_nil
          · rw [hprinted, hchars]
            exact List.cons_ne_nil _ _
        have hword := hfirst q rfl
        obtain ⟨c, cs, hcs⟩ := List.exists_cons_of_ne_nil hne
        rw [hcs] at hword ⊢
        exact starts_cons.mpr (starts_cons.mp hword)

/-- What follows a part keeps apart from it if its first part does. -/
theorem Spelled.apart {cs : List Char} (h : Spelled ps rest) (hfirst : ∀ q ∈ ps.head?, Apart cs q.printed) :
    Apart cs (printedText ps) :=
  fun c hc hword => h.endsWord fun q hq => hfirst q hq c hc hword

/-- A token of a script is printed as one, in front of what is printed behind it. -/
theorem Atom.ReadsIn.printed (hreads : p.ReadsIn (sourceText ps ++ rest)) (hspelled : Spelled ps rest)
    (hseparate : ∀ q ∈ ps.head?, q.kind = .embed → Apart p.chars q.printed)
    (hspace : p.kind ≠ .space) (hline : p.kind ≠ .lineComment) (hembed : p.kind ≠ .embed) :
    ∃ before c cs l, p.chars = c :: cs ∧ lexeme before c (cs ++ printedText ps) = ⟨.ok l, cs.length + 1⟩ ∧
      l.category = p.kind.category := by
  obtain ⟨before, c, cs, l, hchars, htoken, hcategory⟩ := hreads
  refine ⟨before, c, cs, l, hchars, ?_, hcategory⟩
  have hne : ∀ {k : ScriptKind}, k.category ≠ .ident → p.kind ≠ k → l ≠ k := by
    rintro k hk hp rfl
    exact hp (eq_of_category hcategory.symm hk)
  refine lexeme_stable htoken (hne (by decide) hembed) hspelled.agree (fun hword => ?_) fun hl => ?_
  · -- behind a word the text does not go on with it, neither in the script nor in what is printed
    refine hspelled.endsWord fun q hq => ?_
    by_cases hk : q.kind = .embed
    · obtain ⟨_, d, hd, hlast⟩ := lexeme_word_ends htoken hword
      refine hseparate q hq hk d ?_ hlast
      rw [hchars, List.getLast?_eq_getElem?]
      rw [Nat.add_sub_cancel, ← List.cons_append, List.getElem?_append_left (Nat.lt_succ_self _)] at hd
      exact hd
    · cases ps with
      | nil => exact absurd hq (Option.not_mem_none q)
      | cons q' qs =>
          obtain rfl : q' = q := Option.some.inj hq
          have hends := lexeme_endsWord htoken hword
          rw [sourceText_cons] at hends
          exact hspelled.2.1.endsWord hspelled.1 hk hends
  · rcases hl with hl | hl
    · exact absurd hl (hne (by decide) hspace)
    · exact absurd hl (hne (by decide) hline)

/-! ## The tokens of what is printed -/

/-- **The tokens of what is printed for a script** are those of the script, with the tokens of the expressions in
the place of the commands. -/
theorem tokensOf_printedText (h : Spelled ps rest) (hseparate : Separate ps) :
    tokensOf fresh (printedText ps) = splice fresh ps := by
  induction ps generalizing fresh with
  | nil => rfl
  | cons p ps ih =>
      obtain ⟨hreads, hprinted, hspelled⟩ := h
      have hfirst : ∀ q ∈ ps.head?, p.kind = .embed ∨ q.kind = .embed → Apart p.printed q.printed := by
        intro q hq
        obtain ⟨qs, rfl⟩ := List.head?_eq_some_iff.mp hq
        exact (List.isChain_cons_cons.mp hseparate).1
      have hothers : Separate ps := by
        cases ps with
        | nil => exact .nil
        | cons q qs => exact (List.isChain_cons_cons.mp hseparate).2
      rw [printedText_cons]
      unfold splice
      split
      · rename_i hk
        rw [hprinted.ordinary (by rw [hk]; decide) (by rw [hk]; decide) (by rw [hk]; decide),
          tokensOf_white (hreads.white hk), ih hspelled hothers]
      · rename_i hk
        have hnone : p.printed = [] := by simpa [Part.Printed, hk] using hprinted
        rw [hnone, List.nil_append, ih hspelled hothers]
      · rename_i hk
        have hblank : p.printed = [' '] := by simpa [Part.Printed, hk] using hprinted
        rw [hblank, List.singleton_append, tokensOf_whitespace (by decide), ih hspelled hothers,
          show isNewline ' ' = false by decide, Bool.or_false]
      · rename_i hk
        have hoperand : IsOperand p.printed := by simpa [Part.Printed, hk] using hprinted
        rw [hoperand.closed.tokensOf_append (hspelled.apart fun q hq => hfirst q hq (.inl hk)),
          ih hspelled hothers]
      · rename_i hspace hline hblock hembed
        have hsame := hprinted.ordinary hline hblock hembed
        obtain ⟨before, c, cs, l, hchars, htoken, hcategory⟩ := hreads.printed hspelled
          (fun q hq hk => hsame ▸ hfirst q hq (.inr hk)) hspace hline hembed
        have hk : (Kind.script l).isTrivia = false := by
          rw [← isTrivia_category, hcategory, isTrivia_category]
          unfold Kind.isTrivia
          split <;> simp_all
        rw [hsame, hchars, tokensOf_token htoken hk, ih hspelled hothers, hcategory]

end ComponentMarkup.Script
