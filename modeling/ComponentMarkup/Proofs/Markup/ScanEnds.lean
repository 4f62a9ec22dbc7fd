import ComponentMarkup.Proofs.Markup.HeadTiling
import ComponentMarkup.Proofs.Markup.PlainText
import ComponentMarkup.Proofs.Text.Slices

/-!
# What stands where a scan ends

A scan of inline content answers with a number of characters.  What it looked for stands right behind them, or the
scan went to the end of its line.

* `plainRun_last` — plain text ends with no trigger, so a backslash in it is never its last character;
* `lineContentLength_end`, `mathLength?_end`, `addressLength?_end`, `groupLength?_end` — what a scan looked for;
* `codeLength?_end` — the backticks that end a code span are a whole run;
* `Head.read?_ends` — the brackets of a head, and its last character.
-/

namespace ComponentMarkup.Text

/-- A character of a slice stands at a place of the text. -/
theorem Source.of_getElem?_slice {src : Source} {i j k : Nat} {c : Char} (h : (src.slice i j)[k]? = some c) :
    i + k < j ∧ src.chars[i + k]? = some c := by
  have hlt := (List.getElem?_eq_some_iff.mp h).1
  have hle := src.length_slice_le i j
  have hin : i + k < j := by omega
  exact ⟨hin, Source.getElem?_slice hin ▸ h⟩

/-- The first character of a slice stands where the slice starts. -/
theorem Source.of_slice_cons {src : Source} {i j : Nat} {c : Char} {cs : List Char} (h : src.slice i j = c :: cs) :
    i < j ∧ src.chars[i]? = some c :=
  Source.of_getElem?_slice (k := 0) (by rw [h, List.getElem?_cons_zero])

/-- The character behind a run, if there is one, does not fit it. -/
theorem getElem?_runLength {test : Char → Bool} {cs : List Char} {c : Char} (h : cs[runLength test cs]? = some c) :
    test c = false := by
  induction cs with
  | nil => exact absurd h (by simp)
  | cons d ds ih =>
      by_cases hd : test d = true
      · rw [runLength_cons test hd, List.getElem?_cons_succ] at h
        exact ih h
      · have hzero : runLength test (d :: ds) = 0 := by simp [runLength, hd]
        rw [hzero, List.getElem?_cons_zero] at h
        exact Option.some.inj h ▸ Bool.not_eq_true _ ▸ hd

/-- What ends the scan for the end of a group is a closing bracket. -/
theorem closingBracket?_end {opened : List Bracket} {state : GroupState} {cs : List Char} {n : Nat}
    (h : closingBracket? opened state cs = some n) : ∃ c, cs[n]? = some c ∧ (Bracket.closedBy? c).isSome = true := by
  fun_induction closingBracket? opened state cs generalizing n <;> grind [Option.map_eq_some_iff, - getElem?_pos]

/-- A closing bracket stands behind a group. -/
theorem groupLength?_end {bracket : Bracket} {cs : List Char} {n : Nat} (h : groupLength? bracket cs = some n) :
    ∃ c, cs[n]? = some c ∧ (Bracket.closedBy? c).isSome = true :=
  closingBracket?_end h

/-- A bar and a brace stand behind a verbatim body. -/
theorem verbatimLength?_end {cs : List Char} {n : Nat} (h : verbatimLength? cs = some n) :
    cs[n]? = some '|' ∧ cs[n + 1]? = some '}' := by
  fun_induction verbatimLength? cs generalizing n <;> grind [Option.map_eq_some_iff, - getElem?_pos]

/-- The last character of a word is no backslash. -/
theorem wordLength?_last {cs : List Char} {n : Nat} (h : wordLength? cs = some n) :
    ∃ c, cs[n - 1]? = some c ∧ c ≠ '\\' := by
  cases cs with
  | nil => exact absurd h (by simp [wordLength?])
  | cons c cs =>
      simp only [wordLength?] at h
      split at h
      · rename_i hstart
        obtain rfl := Option.some.inj h
        rw [Nat.add_sub_cancel]
        cases hrun : runLength isWordPart cs with
        | zero => exact ⟨c, rfl, by rintro rfl; exact absurd hstart (by decide)⟩
        | succ k =>
            have hlt : k < (cs.takeWhile isWordPart).length := by
              show k < runLength isWordPart cs
              omega
            have hmem : (cs.takeWhile isWordPart)[k] ∈ cs.takeWhile isWordPart := List.getElem_mem hlt
            refine ⟨(cs.takeWhile isWordPart)[k], ?_, ?_⟩
            · rw [List.getElem?_cons_succ, (List.takeWhile_prefix isWordPart).getElem hlt]
              exact List.getElem?_eq_getElem _
            · intro heq
              have hpart := List.mem_takeWhile_imp hmem
              rw [heq] at hpart
              exact absurd hpart (by decide)
      · exact absurd h (by simp)

end ComponentMarkup.Text

namespace ComponentMarkup.Markup

open ComponentMarkup.Text ComponentMarkup.Tree

/-! ## Scans -/

/-- Introducers are no triggers. -/
theorem isTrigger_introducer {c : Char} (h : isIntroducer c = true) : isTrigger c = false := by
  simp only [isIntroducer, Bool.or_eq_true, beq_iff_eq] at h
  rcases h with ((rfl | rfl) | rfl) | rfl <;> decide

/-- Plain text does not end with a trigger: a backslash is taken together with the introducer behind it only. -/
theorem plainRun_last {inHead inBody : Bool} {opened : Nat} {cs : List Char} {c : Char}
    (hpos : 0 < (plainRun inHead inBody opened cs).1) (h : cs[(plainRun inHead inBody opened cs).1 - 1]? = some c) :
    isTrigger c = false := by
  fun_induction plainRun inHead inBody opened cs <;> grind [isTrigger_introducer, - getElem?_pos, - getElem?_neg]

/-- The content after a colon goes on to the end of its line or to a brace. -/
theorem lineContentLength_end (insideBody : Bool) (depth : Nat) (cs : List Char) :
    lineContentLength insideBody depth cs = cs.length ∨ cs[lineContentLength insideBody depth cs]? = some '}' := by
  fun_induction lineContentLength insideBody depth cs <;> grind

/-- A dollar sign ends a formula. -/
theorem mathLength?_end {escaped : Bool} {cs : List Char} {n : Nat} (h : mathLength? escaped cs = some n) :
    cs[n]? = some '$' := by
  fun_induction mathLength? escaped cs generalizing n <;> grind [Option.map_eq_some_iff, - getElem?_pos]

/-- The backticks that end a code span are a whole run. -/
theorem codeLength?_end {width run : Nat} {cs : List Char} {n : Nat} (h : codeLength? width run cs = some n) :
    (∀ i, i < n → n ≤ i + width → cs[i]? = some '\x60') ∧ cs[n]? ≠ some '\x60' := by
  fun_induction codeLength? width run cs generalizing n with
  | case5 run c cs htick hrun ih =>
      -- another character: the run starts anew, and all of it lies behind that character
      obtain ⟨m, hm, rfl⟩ := Option.map_eq_some_iff.mp h
      have hwidth := (codeLength?_bound hm).2
      obtain ⟨hticks, hend⟩ := ih hm
      refine ⟨fun i hi hin => ?_, hend⟩
      cases i with
      | zero => omega
      | succ i => exact hticks i (by omega) (by omega)
  | _ => grind [Option.map_eq_some_iff, - getElem?_pos]

/-- An angle bracket ends an address. -/
theorem addressLength?_end {cs : List Char} {n : Nat} (h : addressLength? cs = some n) : cs[n]? = some '>' := by
  simp only [addressLength?] at h
  split at h
  · rename_i hclosed
    obtain rfl := Option.some.inj h
    simp only [Bool.and_eq_true, beq_iff_eq, List.head?_drop] at hclosed
    exact hclosed.1.1.1.1
  · exact absurd h (by simp)

/-! ## Heads -/

/-- A stretch that starts with an opening bracket and ends with a closing one. -/
structure Bracketed (src : Source) (s : Span) : Prop where
  opening : src.chars[s.start]? = some '(' ∨ src.chars[s.start]? = some '['
  closing : ∃ c, src.chars[s.stop - 1]? = some c ∧ (Bracket.closedBy? c).isSome = true

namespace Bracketed

variable {src : Source}

/-- A group behind its opening bracket. -/
theorem of_group {bracket : Bracket} {place limit n : Nat} {c : Char} {cs : List Char} (hc : c = '(' ∨ c = '[')
    (hslice : src.slice place limit = c :: cs) (h : groupLength? bracket cs = some n) :
    Bracketed src ⟨place, place + n + 2⟩ := by
  obtain ⟨d, hd, hclosed⟩ := groupLength?_end h
  have hplace : (src.slice place limit)[n + 1]? = some d := by rw [hslice, List.getElem?_cons_succ, hd]
  refine ⟨?_, d, (Source.of_getElem?_slice hplace).2, hclosed⟩
  show src.chars[place]? = _ ∨ src.chars[place]? = _
  rw [(Source.of_slice_cons hslice).2]
  exact hc.imp (congrArg some) (congrArg some)

/-- A closing bracket is no backslash. -/
theorem last {s : Span} (h : Bracketed src s) : src.chars[s.stop - 1]? ≠ some '\\' := by
  obtain ⟨c, hc, hclosed⟩ := h.closing
  rw [hc]
  rintro heq
  rw [Option.some.inj heq] at hclosed
  exact absurd hclosed (by decide)

end Bracketed

namespace Head

variable {src : Source}

/-- A computed name stands in brackets, and no name ends with a backslash. -/
theorem readName?_ends {place limit : Nat} {name : HeadName}
    (h : readName? place (src.slice place limit) = some (some name)) :
    (∀ s, name = .computed s → Bracketed src s) ∧ src.chars[name.span.stop - 1]? ≠ some '\\' := by
  cases hrest : src.slice place limit with
  | nil => exact absurd h (by simp [hrest, readName?])
  | cons c cs =>
      rw [hrest] at h
      simp only [readName?] at h
      split at h
      · rename_i n hword
        obtain rfl := Option.some.inj (Option.some.inj h)
        refine ⟨fun _ hs => HeadName.noConfusion hs, ?_⟩
        obtain ⟨hpos, -⟩ := wordLength?_bound hword
        obtain ⟨d, hd, hne⟩ := wordLength?_last hword
        rw [← hrest] at hd
        have hplace : src.chars[place + n - 1]? = some d := by
          rw [Nat.add_sub_assoc hpos]
          exact (Source.of_getElem?_slice hd).2
        show src.chars[place + n - 1]? ≠ _
        rw [hplace]
        exact fun heq => hne (Option.some.inj heq)
      · split at h
        · rename_i hdigit
          obtain rfl := Option.some.inj (Option.some.inj h)
          refine ⟨fun _ hs => HeadName.noConfusion hs, ?_⟩
          show src.chars[place]? ≠ _
          rw [(Source.of_slice_cons hrest).2]
          rintro heq
          rw [Option.some.inj heq] at hdigit
          exact absurd hdigit (by decide)
        · split at h
          · rename_i hparen
            obtain ⟨n, hgroup, hname⟩ := Option.map_eq_some_iff.mp h
            obtain rfl := Option.some.inj hname
            have hbracketed : Bracketed src ⟨place, place + n + 2⟩ :=
              .of_group (.inl (eq_of_beq hparen)) hrest hgroup
            exact ⟨fun s hs => HeadName.computed.inj hs ▸ hbracketed, hbracketed.last⟩
          · split at h <;> exact absurd h (by simp)

/-- An attribute list stands in brackets. -/
theorem readAttributes?_ends {place limit : Nat} {s : Span}
    (h : readAttributes? place (src.slice place limit) = some s) : Bracketed src s := by
  unfold readAttributes? at h
  split at h
  · rename_i cs hrest
    obtain ⟨n, hgroup, rfl⟩ := Option.map_eq_some_iff.mp h
    exact .of_group (.inr rfl) hrest hgroup
  · exact absurd h (by simp)

/-- What stands at the ends of the parts of a head. -/
structure Ends (src : Source) (start width : Nat) (head : Head) : Prop where
  sigil : head.sigil = ⟨start, start + width⟩
  name : ∀ s, head.name = some (.computed s) → Bracketed src s
  attributes : ∀ s, head.attributes = some s → Bracketed src s
  last : src.chars[start + width - 1]? ≠ some '\\' → src.chars[head.stop - 1]? ≠ some '\\'

/-- **A head ends like one**: a computed name and attributes stand in brackets, and a head whose sigil does not end
with a backslash does not end with one. -/
theorem read?_ends {start width limit : Nat} {head : Head} (h : read? src start width limit = some head) :
    head.Ends src start width := by
  simp only [read?, Option.bind_eq_bind, Option.bind_eq_some_iff] at h
  obtain ⟨name, hname, h⟩ := h
  split at h
  · exact absurd h (by simp)
  obtain rfl := Option.some.inj h
  have hnamed : ∀ n, name = some n → (∀ s, n = .computed s → Bracketed src s) ∧
      src.chars[n.span.stop - 1]? ≠ some '\\' := fun n hn => readName?_ends (hn ▸ hname)
  refine ⟨rfl, fun s hs => (hnamed _ hs).1 s rfl, fun s hs => readAttributes?_ends hs, fun hsigil => ?_⟩
  unfold stop
  dsimp only
  split
  · rename_i s hattributes
    exact (readAttributes?_ends hattributes).last
  · exact (hnamed _ rfl).2
  · exact hsigil

end Head

end ComponentMarkup.Markup
