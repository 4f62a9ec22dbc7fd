import ComponentMarkup.Proofs.Markup.BlockTiling
import ComponentMarkup.Proofs.Markup.ScanEnds
import ComponentMarkup.Proofs.Text.LineBreaks

/-!
# Lines that interrupt a paragraph

A paragraph ends at a line that starts a block, and whether a line does is told from the line alone.  The rules
decide with the lines after it in hand.  Both agree on every line but one that opens the body of a component: such a
body may end behind the lines that the rule is given, behind the end of the quotation or of the list item they belong
to, and then the rule declines what the test has promised.

* `isClaimed` — whether a rule claims a line, tables and paragraphs aside;
* `bodyEndsIn` — whether the body of a component that starts on a line ends on one of some lines;
* `isClaimed_eq` — a rule claims a line if and only if the line starts a block and no body leaves the lines;
* `bodyEndsIn_whole` — no body leaves the lines of the whole text.
-/

namespace ComponentMarkup.Text

/-- The brace that closes a body stands where it was found. -/
theorem closingBrace?_getElem? {depth : Nat} {cs : List Char} {n : Nat} (h : closingBrace? depth cs = some n) :
    cs[n]? = some '}' := by
  fun_induction closingBrace? depth cs generalizing n <;> grind [Option.map_eq_some_iff]

/-- Whatever is taken off the end of a text, the rest is a beginning of it. -/
theorem trimEnd_prefix (cs : List Char) : trimEnd cs <+: cs := by
  refine List.reverse_suffix.mp ?_
  rw [trimEnd, List.reverse_reverse]
  exact List.dropWhile_suffix _

variable {src : Source} {lines : List Span} {lo hi : Nat}

/-- **A place behind a character that ends no line lies on a line**, if there is only a line end between any two of
the lines. -/
theorem exists_line (hends : lines.IsChain fun a b => a.stop ≤ b.start ∧ IsLineEnd (src.slice a.stop b.start))
    (hregion : Region lo hi lines) {place : Nat} (hlo : lo ≤ place) (hhi : place < hi) {c : Char}
    (hc : src.chars[place]? = some c) (hplain : isNewline c = false) :
    ∃ line ∈ lines, line.start ≤ place + 1 ∧ place + 1 ≤ line.stop := by
  obtain ⟨first, later, rfl, hstart, hfirst, hlines, hlast⟩ := hregion
  induction later generalizing first lo with
  | nil =>
      have hstop : first.stop = hi := hlast
      exact ⟨first, List.mem_cons_self, by omega, by omega⟩
  | cons next later ih =>
      obtain ⟨⟨hle, hend⟩, hrest⟩ := List.isChain_cons_cons.mp hends
      by_cases hon : place + 1 ≤ first.stop
      · exact ⟨first, List.mem_cons_self, by omega, hon⟩
      by_cases hbetween : place < next.start
      · -- the character would belong to the line end
        have hmem : c ∈ src.slice first.stop next.start := Source.mem_slice.mpr ⟨place, by omega, hbetween, hc⟩
        rw [hend.isNewline c hmem] at hplain
        cases hplain
      · rw [lastStop_cons] at hlast
        obtain ⟨line, hmem, hbounds⟩ := ih (Nat.le_of_not_lt hbetween) next hrest rfl hlines.2.1 hlines.2.2 hlast
        exact ⟨line, List.mem_cons_of_mem first hmem, hbounds⟩

end ComponentMarkup.Text

namespace ComponentMarkup.Markup

open ComponentMarkup.Text ComponentMarkup.Tree

variable {src : Source} {env : BlockEnv} {line : Span} {later : List Span}

/-! ## What the rules claim -/

/-- The rules for all blocks but tables and paragraphs. -/
def interruptingRules : List BlockRule :=
  [commentBlock, scriptBlock, attributeBlock, componentBlock, mathBlock, codeBlock, headingBlock, quoteBlock,
    listBlock]

theorem blockRules_eq : blockRules = interruptingRules ++ [tableBlock] :=
  rfl

/-- Whether a rule for another block than tables and paragraphs claims a line. -/
def isClaimed (env : BlockEnv) (line : Span) (later : List Span) : Bool :=
  interruptingRules.any fun rule => (rule env line later).isSome

/-- The head of the component that a line starts, and how it continues. -/
def componentAt? (src : Source) (line : Span) : Option (Head × ComponentForm) :=
  if (unindented src line).head? == some '@' then componentHeader? src (contentStart src line) line.stop else none

/-- The place behind the delimiter that closes a body. -/
def ComponentForm.bodyStop? : ComponentForm → Option Nat
  | .verbatim close => some (close + 2)
  | .braced close => some (close + 1)
  | .composite _ => none
  | .bare => none

/-- Whether the body of the component that a line starts, if there is one, ends on one of the given lines. -/
def bodyEndsIn (src : Source) (line : Span) (lines : List Span) : Bool :=
  (componentAt? src line).all fun found =>
    found.2.bodyStop?.all fun place => lines.any fun l => l.start ≤ place && place ≤ l.stop

/-! ## Rule by rule -/

section Rules

theorem commentBlock_isSome : (commentBlock env line later).isSome = startsComment (unindented env.source line) := by
  unfold commentBlock
  dsimp only
  split
  · rename_i hcomment
    exact hcomment.symm
  · rename_i hcomment
    exact (Bool.eq_false_iff.mpr hcomment).symm

theorem scriptBlock_isSome :
    (scriptBlock env line later).isSome = ((unindented env.source line).head? == some '%') := by
  unfold scriptBlock
  dsimp only
  by_cases hmark : (unindented env.source line).head? = some '%'
  · simp only [hmark, bne_self_eq_false, Bool.false_eq_true, if_false, beq_self_eq_true]
    split <;> rfl
  · simp [hmark]

theorem attributeBlock_isSome :
    (attributeBlock env line later).isSome = (attributeKey? (unindented env.source line)).isSome := by
  unfold attributeBlock
  dsimp only
  cases attributeKey? (unindented env.source line) with
  | none => rfl
  | some width =>
      simp only [Option.bind_eq_bind, Option.bind_some]
      split <;> rfl

theorem linesAfter?_isSome (place : Nat) (lines : List Span) :
    (linesAfter? place lines).isSome = lines.any fun l => l.start ≤ place && place ≤ l.stop := by
  induction lines with
  | nil => rfl
  | cons line lines ih =>
      rw [linesAfter?, List.any_cons]
      cases decide (line.start ≤ place) && decide (place ≤ line.stop) with
      | true => rfl
      | false => simpa using ih

/-- The rule for components declines if a body ends nowhere on the lines it is given. -/
theorem componentBlock_isSome : (componentBlock env line later).isSome =
    ((componentAt? env.source line).isSome && bodyEndsIn env.source line (line :: later)) := by
  unfold componentBlock bodyEndsIn componentAt?
  dsimp only
  by_cases hmark : (unindented env.source line).head? = some '@'
  · simp only [hmark, bne_self_eq_false, Bool.false_eq_true, if_false, beq_self_eq_true, if_true]
    cases componentHeader? env.source (contentStart env.source line) line.stop with
    | none => rfl
    | some found =>
        obtain ⟨head, form⟩ := found
        cases form with
        | verbatim close =>
            simp only [ComponentForm.bodyStop?, Option.bind_eq_bind, Option.bind_some, Option.all_some,
              Option.isSome_some, Bool.true_and, ← linesAfter?_isSome]
            cases linesAfter? (close + 2) (line :: later) <;> rfl
        | braced close =>
            simp only [ComponentForm.bodyStop?, Option.bind_eq_bind, Option.bind_some, Option.all_some,
              Option.isSome_some, Bool.true_and, ← linesAfter?_isSome]
            cases linesAfter? (close + 1) (line :: later) <;> rfl
        | composite colon => rfl
        | bare => rfl
  · simp [hmark]

theorem mathBlock_isSome : (mathBlock env line later).isSome = isMathFence (unindented env.source line) := by
  unfold mathBlock
  dsimp only
  split
  · rename_i hfence
    simpa using hfence
  · rename_i hfence
    simpa using hfence

theorem codeBlock_isSome : (codeBlock env line later).isSome = (codeFence? (unindented env.source line)).isSome := by
  unfold codeBlock
  dsimp only
  cases codeFence? (unindented env.source line) <;> rfl

theorem headingBlock_isSome :
    (headingBlock env line later).isSome = (headingLevel? (unindented env.source line)).isSome := by
  unfold headingBlock
  dsimp only
  cases headingLevel? (unindented env.source line) <;> rfl

theorem quoteBlock_isSome :
    (quoteBlock env line later).isSome = ((unindented env.source line).head? == some '>') := by
  unfold quoteBlock
  dsimp only
  split
  · rename_i hmark
    simpa using hmark
  · rename_i hmark
    simpa using hmark

theorem listBlock_isSome :
    (listBlock env line later).isSome = (ListMarker.read? (unindented env.source line)).isSome := by
  unfold listBlock
  dsimp only
  cases ListMarker.read? (unindented env.source line) <;> rfl

end Rules

/-! ## The test and the rules -/

/-- Whether a text starts a block that is no component, table or paragraph. -/
def startsPlainBlock (t : List Char) : Bool :=
  startsComment t || t.head? == some '%' || (attributeKey? t).isSome || isMathFence t || (codeFence? t).isSome ||
    (headingLevel? t).isSome || t.head? == some '>' || (ListMarker.read? t).isSome

theorem startsBlock_eq (src : Source) (line : Span) :
    startsBlock src line = (startsPlainBlock (unindented src line) || (componentAt? src line).isSome) := by
  have hcomponent : (componentAt? src line).isSome = ((unindented src line).head? == some '@' &&
      (componentHeader? src (contentStart src line) line.stop).isSome) := by
    unfold componentAt?
    cases (unindented src line).head? == some '@' <;> rfl
  rw [startsBlock, startsPlainBlock, hcomponent]
  ac_rfl

/-- The sigil of a component starts no other block. -/
theorem startsPlainBlock_sigil {t : List Char} (h : t.head? = some '@') : startsPlainBlock t = false := by
  obtain ⟨cs, rfl⟩ := List.head?_eq_some_iff.mp h
  have hmath : isMathFence ('@' :: cs) = false := by
    refine beq_false_of_ne fun heq => ?_
    have hprefix := trimEnd_prefix ('@' :: cs)
    rw [heq] at hprefix
    exact absurd (List.cons_prefix_cons.mp hprefix).1 (by decide)
  have hlist : ListMarker.read? ('@' :: cs) = none := by
    have hdigits : runLength isDigit ('@' :: cs) = 0 := rfl
    simp [ListMarker.read?, hdigits]
  have hlevel : headingLevel? ('@' :: cs) = none := by
    have hmarks : runLength (· == '#') ('@' :: cs) = 0 := rfl
    simp [headingLevel?, hmarks]
  simp [startsPlainBlock, hmath, hlist, hlevel, startsComment, attributeKey?, codeFence?]

/-- **A rule claims a line if and only if the line starts a block and no body leaves the lines.** -/
theorem isClaimed_eq (env : BlockEnv) (line : Span) (later : List Span) :
    isClaimed env line later = (startsBlock env.source line && bodyEndsIn env.source line (line :: later)) := by
  have hclaimed : isClaimed env line later = (startsPlainBlock (unindented env.source line) ||
      ((componentAt? env.source line).isSome && bodyEndsIn env.source line (line :: later))) := by
    simp only [isClaimed, interruptingRules, List.any_cons, List.any_nil, commentBlock_isSome, scriptBlock_isSome,
      attributeBlock_isSome, componentBlock_isSome, mathBlock_isSome, codeBlock_isSome, headingBlock_isSome,
      quoteBlock_isSome, listBlock_isSome, startsPlainBlock, Bool.or_false]
    ac_rfl
  rw [hclaimed, startsBlock_eq]
  by_cases hmark : (unindented env.source line).head? = some '@'
  · rw [startsPlainBlock_sigil hmark, Bool.false_or, Bool.false_or]
  · -- without a sigil there is no body
    have hnone : componentAt? env.source line = none := if_neg (by simpa using hmark)
    simp [hnone, bodyEndsIn]

/-- The second line of a quotation opens a body that is closed behind the quotation: the line starts a block, and no
rule claims it. -/
theorem startsBlock_unclaimed :
    let src := Source.ofString "> a\n> @x\x7b\nb\x7d"
    let env : BlockEnv := ⟨src, inlineNodes src maxDepth, blockNodes src maxDepth⟩
    let quoted := (lineSpans src src.whole).takeWhile fun l => (unindented src l).head? == some '>'
    quoted.map (unquote src) = [⟨2, 3⟩, ⟨6, 9⟩] ∧ isBlankLine src ⟨6, 9⟩ = false ∧
      startsBlock src ⟨6, 9⟩ = true ∧ isClaimed env ⟨6, 9⟩ [] = false := by
  decide

/-! ## The whole text -/

/-- A body ends behind a brace. -/
theorem ComponentForm.bodyStop?_brace {start stop : Nat} {head : Head} {form : ComponentForm} {place : Nat}
    (h : componentHeader? src start stop = some (head, form)) (hplace : form.bodyStop? = some place) :
    ∃ brace, place = brace + 1 ∧ head.stop ≤ brace ∧ src.chars[brace]? = some '}' := by
  -- what a scan over the rest of the text finds stands in the text
  have hscan : ∀ {i n : Nat}, (src.after i)[n]? = some '}' → src.chars[i + n]? = some '}' := by
    intro i n hn
    have hlt : n < (src.after i).length := (List.getElem?_eq_some_iff.mp hn).1
    have hlength := src.length_slice_le i src.size
    rw [← hn, Source.after, Source.getElem?_slice]
    rw [Source.after] at hlt
    omega
  obtain ⟨head', -, hform⟩ := Option.bind_eq_some_iff.mp h
  dsimp only at hform
  split at hform
  · obtain ⟨n, hlength, hrest⟩ := Option.bind_eq_some_iff.mp hform
    split at hrest
    · obtain ⟨rfl, rfl⟩ := Prod.mk.inj (Option.some.inj hrest)
      obtain rfl := Option.some.inj hplace
      exact ⟨head'.stop + 2 + (n + 1), by omega, by omega, hscan (verbatimLength?_end hlength).2⟩
    · cases hrest
  · obtain ⟨n, hlength, hrest⟩ := Option.bind_eq_some_iff.mp hform
    split at hrest
    · obtain ⟨rfl, rfl⟩ := Prod.mk.inj (Option.some.inj hrest)
      obtain rfl := Option.some.inj hplace
      exact ⟨head'.stop + 1 + n, rfl, by omega, hscan (closingBrace?_getElem? hlength)⟩
    · cases hrest
  · split at hform
    · cases hform
    · split at hform
      · split at hform
        · obtain ⟨rfl, rfl⟩ := Prod.mk.inj (Option.some.inj hform)
          cases hplace
        · cases hform
      · split at hform
        · obtain ⟨rfl, rfl⟩ := Prod.mk.inj (Option.some.inj hform)
          cases hplace
        · cases hform

/-- **No body leaves the lines of the whole text**, whichever of them it starts on. -/
theorem bodyEndsIn_whole {before : List Span} (h : lineSpans src src.whole = before ++ line :: later) :
    bodyEndsIn src line (line :: later) = true := by
  have hends := lineSpans_ends src src.whole
  have hregion : Region 0 src.size (lineSpans src src.whole) := lineSpans_region (Nat.zero_le _) (Nat.le_refl _)
  rw [h] at hends hregion
  have hlines : Lines (lastStop 0 before) src.size (line :: later) := hregion.lines.split.2
  have hlast : lastStop line.stop later = src.size := by
    have hstop := hregion.last_stop
    rw [List.getLast?_append_cons] at hstop
    rw [← hstop]
    exact (lastStop_cons 0 line later).symm
  have hrest : Region line.start src.size (line :: later) := hlast ▸ Region.of_lines hlines
  obtain ⟨hstart, -, hstop⟩ := content_bounds hlines (Nat.le_refl _) List.mem_cons_self
  unfold bodyEndsIn componentAt?
  split
  · cases hheader : componentHeader? src (contentStart src line) line.stop with
    | none => rfl
    | some found =>
        obtain ⟨head, form⟩ := found
        rw [Option.all_some]
        cases hplace : form.bodyStop? with
        | none => rfl
        | some place =>
            obtain ⟨hhead, -, -, -⟩ := componentHeader?_spec hheader hstop
            obtain ⟨brace, rfl, hbehind, hbrace⟩ := ComponentForm.bodyStop?_brace hheader hplace
            have hsize : brace < src.size := (Array.getElem?_eq_some_iff.mp hbrace).1
            obtain ⟨l, hl, hfrom, hto⟩ := exists_line hends.right_of_append hrest (by omega) hsize hbrace rfl
            exact List.any_eq_true.mpr ⟨l, hl, by simp [hfrom, hto]⟩
  · rfl

end ComponentMarkup.Markup
