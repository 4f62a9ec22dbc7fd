import ComponentMarkup.Proofs.Markup.Pairing
import ComponentMarkup.Proofs.Text.LineBreaks

/-!
# Bodies that all scans read alike

A script looks for the end of a command by counting braces.  Inline content looks for it by reading what stands in
the bodies, and there code, formulas, addresses, comments and other commands may hold braces that do not count.  A
text in which nothing can hold a brace is read alike by both.

* `hidesNothing` — whether no braces are hidden in a text;
* `Bodies`, `InBody` — bodies one after the other, and the rest of a body with other bodies behind it;
* `InBody.plainRun` — plain text in a body, with the braces in it;
* `Broken`, `lineSpans_broken` — between the lines of a stretch there are line ends.
-/

namespace ComponentMarkup.Markup

open ComponentMarkup.Text ComponentMarkup.Tree

/-! ## Plain bodies -/

/-- Characters that may start a construct in which braces do not count. -/
def mayHide (c : Char) : Bool :=
  c == '@' || c == '#' || c == '&' || c == '$' || c == '\x60' || c == '<'

/-- Two characters that start such a construct together, or that end a command before its next group. -/
def mayHideTogether (c d : Char) : Bool :=
  (c == ']' && d == '(') || (c == '/' && d == '/') || (c == '{' && d == '|') || (c == '}' && d == '[')

/-- Whether no braces are hidden in a text.  A character after a backslash starts nothing. -/
def hidesNothing : List Char → Bool
  | [] => true
  | '\\' :: _ :: cs => hidesNothing cs
  | c :: cs => !mayHide c && !cs.head?.any (mayHideTogether c) && hidesNothing cs

/-- Bodies in braces, one right after the other. -/
inductive Bodies : List Char → Prop
  | nil : Bodies []
  | cons {cs : List Char} {n : Nat} (closes : closingBrace? 0 cs = some n) (more : Bodies (cs.drop (n + 1))) :
      Bodies ('{' :: cs)

/-- The rest of a body in which a number of braces are open, and other bodies behind it.  No braces are hidden. -/
structure InBody (depth : Nat) (cs : List Char) : Prop where
  closes : ∃ n, closingBrace? depth cs = some n ∧ Bodies (cs.drop (n + 1))
  clear : hidesNothing cs = true

variable {c d : Char} {cs xs ys : List Char} {depth : Nat}

theorem hidesNothing_cons (hc : c ≠ '\\') (h : hidesNothing (c :: cs) = true) :
    mayHide c = false ∧ cs.head?.any (mayHideTogether c) = false ∧ hidesNothing cs = true := by
  have hstep : hidesNothing (c :: cs) = (!mayHide c && !cs.head?.any (mayHideTogether c) && hidesNothing cs) := by
    rw [hidesNothing]
    rintro d ds rfl -
    exact absurd rfl hc
  rw [hstep] at h
  simpa [and_assoc] using h

/-- Only punctuation starts such a construct. -/
theorem isPunctuation_of_mayHide (h : mayHide c = true) : isPunctuation c = true := by
  simp only [mayHide, Bool.or_eq_true, beq_iff_eq] at h
  rcases h with ((((rfl | rfl) | rfl) | rfl) | rfl) | rfl <;> decide

theorem isPunctuation_of_mayHideTogether (h : mayHideTogether c d = true) : isPunctuation c = true := by
  simp only [mayHideTogether, Bool.or_eq_true, Bool.and_eq_true, beq_iff_eq] at h
  rcases h with ((⟨rfl, -⟩ | ⟨rfl, -⟩) | ⟨rfl, -⟩) | ⟨rfl, -⟩ <;> decide

/-- No punctuation ends a line. -/
theorem isNewline_of_isPunctuation (h : isPunctuation c = true) : isNewline c = false := by
  simp [isPunctuation] at h
  simp [isNewline]
  omega

/-- A character that is not read together with the next is no backslash. -/
theorem ne_backslash (hlast : c = '\\' → cs = [] → False) (hescape : ∀ d ds, c = '\\' → cs = d :: ds → False) :
    c ≠ '\\' := by
  rintro rfl
  cases cs with
  | nil => exact hlast rfl rfl
  | cons d ds => exact hescape d ds rfl rfl

theorem closingBrace?_cons (hc : c ≠ '\\') (hopen : c ≠ '{') (hclose : c ≠ '}') :
    closingBrace? depth (c :: cs) = (closingBrace? depth cs).map (· + 1) := by
  rw [closingBrace?] <;> simp_all

/-- Behind a body that hides no braces there is no attribute list, and no braces are hidden. -/
theorem hidesNothing_behind {n : Nat} (h : closingBrace? depth cs = some n) (hclear : hidesNothing cs = true) :
    hidesNothing (cs.drop (n + 1)) = true ∧ (cs.drop (n + 1)).head? ≠ some '[' := by
  fun_induction closingBrace? depth cs generalizing n with
  | case1 depth => exact absurd h (by simp)
  | case2 depth => exact absurd h (by simp)
  | case3 depth c cs ih =>
      obtain ⟨m, hm, rfl⟩ := Option.map_eq_some_iff.mp h
      exact ih hm hclear
  | case4 depth cs ih =>
      obtain ⟨m, hm, rfl⟩ := Option.map_eq_some_iff.mp h
      exact ih hm (hidesNothing_cons (by decide) hclear).2.2
  | case5 cs =>
      obtain rfl := Option.some.inj h
      obtain ⟨-, htogether, hrest⟩ := hidesNothing_cons (by decide) hclear
      refine ⟨hrest, fun hhead => ?_⟩
      rw [Nat.zero_add, List.drop_one, List.tail_cons] at hhead
      rw [hhead] at htogether
      exact absurd htogether (by decide)
  | case6 depth cs ih =>
      obtain ⟨m, hm, rfl⟩ := Option.map_eq_some_iff.mp h
      exact ih hm (hidesNothing_cons (by decide) hclear).2.2
  | case7 depth c cs hlast hescape hopen hclose ih =>
      obtain ⟨m, hm, rfl⟩ := Option.map_eq_some_iff.mp h
      exact ih hm (hidesNothing_cons (ne_backslash hlast hescape) hclear).2.2

namespace InBody

/-- A character that is neither a brace nor a backslash. -/
theorem char (h : InBody depth (c :: cs)) (hc : c ≠ '\\') (hopen : c ≠ '{') (hclose : c ≠ '}') : InBody depth cs := by
  obtain ⟨n, hn, hmore⟩ := h.closes
  rw [closingBrace?_cons hc hopen hclose, Option.map_eq_some_iff] at hn
  obtain ⟨m, hm, rfl⟩ := hn
  exact ⟨⟨m, hm, hmore⟩, (hidesNothing_cons hc h.clear).2.2⟩

/-- An opening brace. -/
theorem opening (h : InBody depth ('{' :: cs)) : InBody (depth + 1) cs := by
  obtain ⟨n, hn, hmore⟩ := h.closes
  obtain ⟨m, hm, rfl⟩ := Option.map_eq_some_iff.mp hn
  exact ⟨⟨m, hm, hmore⟩, (hidesNothing_cons (by decide) h.clear).2.2⟩

/-- A closing brace that was opened in the body. -/
theorem closing (h : InBody (depth + 1) ('}' :: cs)) : InBody depth cs := by
  obtain ⟨n, hn, hmore⟩ := h.closes
  obtain ⟨m, hm, rfl⟩ := Option.map_eq_some_iff.mp hn
  exact ⟨⟨m, hm, hmore⟩, (hidesNothing_cons (by decide) h.clear).2.2⟩

/-- The brace that closes the body. -/
theorem last (h : InBody 0 ('}' :: cs)) : Bodies cs ∧ hidesNothing cs = true := by
  obtain ⟨n, hn, hmore⟩ := h.closes
  obtain rfl : 0 = n := Option.some.inj hn
  exact ⟨hmore, (hidesNothing_cons (by decide) h.clear).2.2⟩

/-- A character after a backslash. -/
theorem escape (h : InBody depth ('\\' :: c :: cs)) : InBody depth cs := by
  obtain ⟨n, hn, hmore⟩ := h.closes
  obtain ⟨m, hm, rfl⟩ := Option.map_eq_some_iff.mp hn
  exact ⟨⟨m, hm, hmore⟩, h.clear⟩

/-- A backslash before a character that is no punctuation. -/
theorem backslash (h : InBody depth ('\\' :: c :: cs)) (hc : isPunctuation c = false) : InBody depth (c :: cs) := by
  have hne : ∀ d, isPunctuation d = true → c ≠ d := by
    rintro d hd rfl
    exact Bool.false_ne_true (hc.symm.trans hd)
  obtain ⟨n, hn, hmore⟩ := h.closes
  obtain ⟨m, hm, rfl⟩ := Option.map_eq_some_iff.mp hn
  refine ⟨⟨m + 1, ?_, hmore⟩, ?_⟩
  · rw [closingBrace?_cons (hne '\\' (by decide)) (hne '{' (by decide)) (hne '}' (by decide)), hm]
    rfl
  · have hsingle : mayHide c = false := Bool.eq_false_iff.mpr fun hhide =>
      Bool.false_ne_true (hc.symm.trans (isPunctuation_of_mayHide hhide))
    have htogether : cs.head?.any (mayHideTogether c) = false := by
      cases cs with
      | nil => rfl
      | cons d ds => exact Bool.eq_false_iff.mpr fun hhide =>
          Bool.false_ne_true (hc.symm.trans (isPunctuation_of_mayHideTogether hhide))
    have hcs : hidesNothing cs = true := h.clear
    rw [hidesNothing, hsingle, htogether, hcs]
    · rfl
    · rintro d ds rfl -
      exact hne '\\' (by decide) rfl

/-- Characters that are neither braces nor backslashes. -/
theorem drop {n : Nat} (h : InBody depth cs) (hn : n ≤ cs.length)
    (hplain : ∀ c ∈ cs.take n, c ≠ '\\' ∧ c ≠ '{' ∧ c ≠ '}') : InBody depth (cs.drop n) := by
  induction n generalizing cs with
  | zero => exact h
  | succ n ih =>
      cases cs with
      | nil => exact absurd hn (Nat.not_succ_le_zero n)
      | cons c cs =>
          obtain ⟨hback, hopen, hclose⟩ := hplain c List.mem_cons_self
          refine ih (h.char hback hopen hclose) (Nat.le_of_succ_le_succ hn) fun d hd => hplain d ?_
          exact List.mem_cons_of_mem c hd

/-- A body does not end before its brace. -/
theorem ne_nil (h : InBody depth cs) : cs ≠ [] := by
  rintro rfl
  obtain ⟨n, hn, -⟩ := h.closes
  exact absurd hn (by simp [closingBrace?])

/-- Plain text in a body, with the braces that it leaves open. -/
theorem plainRun {opened : Nat} {rest after : List Char} (h : InBody (depth + opened) (rest ++ after)) :
    InBody (depth + (Markup.plainRun false true opened rest).2)
      ((rest ++ after).drop (Markup.plainRun false true opened rest).1) := by
  fun_induction Markup.plainRun false true opened rest with
  | case3 opened d cs hintroducer n left hrun ih =>
      rw [hrun] at ih
      exact ih h.escape
  | case6 opened c cs hlast hescape hplain hopen hbody n left hrun ih =>
      obtain rfl := beq_iff_eq.mp hopen
      rw [hrun] at ih
      exact ih h.opening
  | case8 opened c cs hlast hescape hplain hopen hclose hbody n left hrun ih =>
      obtain rfl := beq_iff_eq.mp hclose
      obtain ⟨opened, rfl⟩ : ∃ m, opened = m + 1 :=
        Nat.exists_eq_succ_of_ne_zero (Nat.ne_of_gt (by simpa using hbody))
      rw [hrun] at ih
      exact ih h.closing
  | case11 opened c cs hlast hescape hplain hopen hclose hbracket n left hrun ih =>
      rw [hrun] at ih
      exact ih (h.char (ne_backslash hlast hescape) (by simpa using hopen) (by simpa using hclose))
  | _ => exact h

end InBody

/-! ## Lines -/

/-- Stretches with line ends between them. -/
def Broken (src : Source) : List Span → Prop
  | a :: b :: lines => (src.slice a.stop b.start ≠ [] ∧ ∀ c ∈ src.slice a.stop b.start, isNewline c = true) ∧
      Broken src (b :: lines)
  | _ => True

variable {src : Source}

/-- Between the lines of a stretch there are line ends. -/
theorem lineSpans_broken (src : Source) (s : Span) : Broken src (lineSpans src s) := by
  have hends := lineSpans_ends src s
  generalize lineSpans src s = lines at hends
  induction hends with
  | nil => trivial
  | singleton line => trivial
  | cons_cons hend _ ih => exact ⟨⟨hend.2.ne_nil, hend.2.isNewline⟩, ih⟩

end ComponentMarkup.Markup
