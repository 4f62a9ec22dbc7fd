import ComponentMarkup.Proofs.Markup.SoleRegion
import ComponentMarkup.Proofs.Script.Keywords
import ComponentMarkup.Proofs.Script.TokenStable

/-!
# Commands in a script

A command in a script is a single token, the end of which the lexer of scripts looks for by itself.  The text of the
token is then read as inline content, and there the command ends where the rules for inline content say.  Both find the
same end for a command of a plain form, but not for every command.

* `embedGroups_bodies` — the groups that the lexer takes behind a head are bodies;
* `head_embedGroups` — the lexer takes the head that the rules for inline content read;
* `PlainForm` — the form of a command that both read alike;
* `embed_readsCommand` — a command of that form is read as a single command;
* `embed_not_readsCommand` — a command that is not.
-/

namespace ComponentMarkup.Script

open ComponentMarkup.Text ComponentMarkup.Tree ComponentMarkup.Markup

variable {src : Source} {c d : Char} {cs ds : List Char} {depth fuel length total place : Nat}

/-! ## Scans -/

/-- The brace that closes a body does not depend on what follows it. -/
theorem closingBrace?_stable {n : Nat} (h : closingBrace? depth cs = some n) (htake : ds.take (n + 1) = cs.take (n + 1)) :
    closingBrace? depth ds = some n := by
  fun_induction closingBrace? depth cs generalizing n ds with
  | case1 depth => exact absurd h (by simp)
  | case2 depth => exact absurd h (by simp)
  | case3 depth c cs ih =>
      obtain ⟨m, hm, rfl⟩ := Option.map_eq_some_iff.mp h
      obtain ⟨_, rfl, hrest⟩ := take_succ_eq_cons htake rfl
      obtain ⟨es, rfl, hes⟩ := take_succ_eq_cons hrest rfl
      rw [closingBrace?, ih hm hes]
      rfl
  | case4 depth cs ih =>
      obtain ⟨m, hm, rfl⟩ := Option.map_eq_some_iff.mp h
      obtain ⟨es, rfl, hes⟩ := take_succ_eq_cons htake rfl
      rw [closingBrace?, ih hm hes]
      rfl
  | case5 cs =>
      obtain rfl := Option.some.inj h
      obtain ⟨es, rfl, hes⟩ := take_succ_eq_cons htake rfl
      rfl
  | case6 depth cs ih =>
      obtain ⟨m, hm, rfl⟩ := Option.map_eq_some_iff.mp h
      obtain ⟨es, rfl, hes⟩ := take_succ_eq_cons htake rfl
      rw [closingBrace?, ih hm hes]
      rfl
  | case7 depth c cs hlast hescape hopen hclose ih =>
      obtain ⟨m, hm, rfl⟩ := Option.map_eq_some_iff.mp h
      obtain ⟨es, rfl, hes⟩ := take_succ_eq_cons htake rfl
      rw [closingBrace?_cons (ne_backslash hlast hescape) hopen hclose, ih hm hes]
      rfl

/-- The bracket that closes a group does not depend on what follows it. -/
theorem closingBracket?_stable {opened : List Bracket} {state : GroupState} {n : Nat}
    (h : closingBracket? opened state cs = some n) (htake : ds.take (n + 1) = cs.take (n + 1)) :
    closingBracket? opened state ds = some n := by
  fun_induction closingBracket? opened state cs generalizing n ds with
  | case1 opened state => exact absurd h (by simp)
  | case7 c cs hescape hquote hopen top below hempty hclose =>
      obtain rfl := Option.some.inj h
      obtain ⟨es, rfl, -⟩ := take_succ_eq_cons htake rfl
      simp only [closingBracket?, hescape, hquote, hopen, hclose, hempty, if_true, if_false, Bool.false_eq_true]
  | case3 =>
      rename_i ih
      obtain ⟨m, hm, rfl⟩ := Option.map_eq_some_iff.mp h
      obtain ⟨es, rfl, hes⟩ := take_succ_eq_cons htake rfl
      exact congrArg (Option.map (· + 1)) (ih hm hes)
  | _ =>
      rename_i ih
      obtain ⟨m, hm, rfl⟩ := Option.map_eq_some_iff.mp h
      obtain ⟨es, rfl, hes⟩ := take_succ_eq_cons htake rfl
      have hrest := ih hm hes
      simp_all [closingBracket?]

/-- A run in the first part of a text is the whole run, or what follows it belongs to the run. -/
theorem runLength_take (p : Char → Bool) (cs : List Char) (k : Nat) :
    runLength p (cs.take k) = runLength p cs ∨ runLength p (cs.take k) < runLength p cs ∧
      ∃ c, cs[runLength p (cs.take k)]? = some c ∧ p c = true := by
  induction cs generalizing k with
  | nil => exact .inl (by rw [List.take_nil])
  | cons c cs ih =>
      cases hc : p c with
      | false =>
          left
          cases k <;> simp [runLength, hc]
      | true =>
          cases k with
          | zero =>
              right
              rw [runLength_cons p hc]
              exact ⟨Nat.succ_pos _, c, rfl, hc⟩
          | succ k =>
              rw [List.take_succ_cons, runLength_cons p hc, runLength_cons p hc]
              rcases ih k with heq | ⟨hlt, hnext⟩
              · exact .inl (by rw [heq])
              · exact .inr ⟨Nat.succ_lt_succ hlt, hnext⟩

/-! ## The token -/

/-- The groups behind a head that are not attribute lists are bodies. -/
theorem embedGroups_bodies (h : embedGroups fuel length cs = ⟨.ok .embed, total⟩)
    (hclear : hidesNothing (cs.take (total - length)) = true) (hhead : (cs.take (total - length)).head? ≠ some '[') :
    Bodies (cs.take (total - length)) := by
  induction fuel generalizing length cs with
  | zero =>
      obtain rfl : length = total := congrArg Lexeme.length h
      rw [Nat.sub_self, List.take_zero]
      exact .nil
  | succ fuel ih =>
      unfold embedGroups at h
      split at h
      · rename_i ds
        split at h
        · exact absurd (congrArg Lexeme.kind h) (by simp)
        · rename_i n hgroup
          obtain ⟨hle, -⟩ := embedGroups_bound fuel (length + n + 2) (ds.drop (n + 1))
          rw [h] at hle
          obtain ⟨k, hk⟩ : ∃ k, total - length = k + 1 := ⟨total - length - 1, by dsimp only at hle; omega⟩
          rw [hk] at hhead
          exact absurd rfl hhead
      · rename_i ds
        split at h
        · exact absurd (congrArg Lexeme.kind h) (by simp)
        · rename_i n hbody
          obtain ⟨hle, -⟩ := embedGroups_bound fuel (length + n + 2) (ds.drop (n + 1))
          rw [h] at hle
          obtain ⟨k, hk⟩ : ∃ k, total - length = k + n + 2 := ⟨total - length - n - 2, by dsimp only at hle; omega⟩
          have hrest : total - (length + n + 2) = k := by omega
          rw [hk, show k + n + 2 = (n + 1 + k) + 1 by omega, List.take_succ_cons] at hclear ⊢
          have hclosed : closingBrace? 0 (ds.take (n + 1 + k)) = some n := by
            refine closingBrace?_stable hbody ?_
            rw [List.take_take, Nat.min_eq_left (Nat.le_add_right _ _)]
          have hdrop : (ds.take (n + 1 + k)).drop (n + 1) = (ds.drop (n + 1)).take k := by
            rw [List.drop_take, Nat.add_sub_cancel_left]
          obtain ⟨hbehind, hnext⟩ := hidesNothing_behind hclosed (hidesNothing_cons (by decide) hclear).2.2
          rw [hdrop] at hbehind hnext
          refine .cons hclosed ?_
          rw [hdrop]
          exact hrest ▸ ih h (hrest ▸ hbehind) (hrest ▸ hnext)
      · split at h
        · exact absurd (congrArg Lexeme.kind h) (by simp)
        · obtain rfl : length = total := congrArg Lexeme.length h
          rw [Nat.sub_self, List.take_zero]
          exact .nil

/-- No operator is a command. -/
theorem operatorLexeme?_ne_embed {token : Lexeme} (h : operatorLexeme? c cs = some token) :
    token.kind ≠ .ok .embed := by
  unfold operatorLexeme? at h
  split at h <;> grind [assignable]

/-- A command in a script has one of the two sigils that a command without a dot may have. -/
theorem lexeme_embed {before : List Char} {n : Nat} (h : lexeme before c cs = ⟨.ok .embed, n⟩) :
    (c = '@' ∨ c = '#') ∧ embedLexeme cs = ⟨.ok .embed, n⟩ := by
  have hno : ∀ {l : ScriptKind} {m}, (⟨.ok l, m⟩ : Lexeme) = ⟨.ok .embed, n⟩ → l ≠ .embed → False :=
    fun hl hne => hne (Except.ok.inj (congrArg Lexeme.kind hl))
  unfold lexeme at h
  split at h
  · exact (hno h (by decide)).elim
  split at h
  · exact (hno h (by decide)).elim
  split at h
  · split at h
    · exact (hno h (by decide)).elim
    · exact absurd (congrArg Lexeme.kind h) (by simp)
  split at h
  · rename_i hsigil
    exact ⟨(Bool.or_eq_true_iff.mp hsigil).imp beq_iff_eq.mp beq_iff_eq.mp, h⟩
  split at h
  · simp only [stringLexeme] at h
    split at h
    · exact (hno h (by decide)).elim
    · exact absurd (congrArg Lexeme.kind h) (by simp)
  split at h
  · simp only [templateLexeme] at h
    split at h
    · exact (hno h (by decide)).elim
    · exact absurd (congrArg Lexeme.kind h) (by simp)
  split at h
  · rename_i hstart
    have hdigit := (Bool.or_eq_true_iff.mp hstart).imp id fun hdot => (Bool.and_eq_true_iff.mp hdot).2
    exact absurd (numberLexeme_isNumber hdigit .embed (congrArg Lexeme.kind h)).1 (by decide)
  · split at h
    · rename_i token htoken
      exact absurd (congrArg Lexeme.kind h) (operatorLexeme?_ne_embed htoken)
    · split at h
      · exact absurd (wordLexeme_category (congrArg Lexeme.kind h)) (by decide)
      · exact absurd (congrArg Lexeme.kind h) (by simp)

/-- The lexer behind any number of tokens stands in the same stretch. -/
theorem Lexer.Reads.skip {stop : Nat} {lx : Lexer} (h : lx.Reads src stop) (n : Nat) : (lx.skip n).Reads src stop := by
  induction n with
  | zero => exact h
  | succ n ih => exact ih.next.reads

/-- A command that the lexer finds: its sigil, and how far the lexer goes on from there. -/
theorem next_embed {stop : Nat} {lx : Lexer} {text : String} {s : Span} (h : lx.Reads src stop)
    (htoken : lx.next.1 = .leaf (.script .embed) text s) :
    ∃ c total, (c = '@' ∨ c = '#') ∧ (src.slice s.start stop).head? = some c ∧ s.stop = s.start + total ∧ s.stop ≤ stop ∧
      0 < total ∧ embedLexeme (src.slice (s.start + 1) stop) = ⟨.ok .embed, total⟩ := by
  unfold Lexer.next at htoken
  split at htoken
  · exact absurd htoken (by simp)
  rename_i c cs hrest
  obtain ⟨hpos, hmax⟩ := lexeme_fits lx.before c cs
  have hslice := h.rest.symm.trans hrest
  have hlength := src.length_slice (i := lx.place) h.stop_le
  rw [hslice, List.length_cons] at hlength
  dsimp only at htoken
  cases hkind : (lexeme lx.before c cs).kind with
  | error message =>
      rw [hkind] at htoken
      exact absurd htoken (by simp)
  | ok kind =>
      rw [hkind] at htoken
      obtain ⟨hembed, -, rfl⟩ : kind = .embed ∧ _ ∧ _ = s := by simpa using htoken
      have hlexeme : lexeme lx.before c cs = ⟨.ok .embed, (lexeme lx.before c cs).length⟩ := by rw [← hembed, ← hkind]
      obtain ⟨hsigil, hgroups⟩ := lexeme_embed hlexeme
      refine ⟨c, _, hsigil, ?_, rfl, ?_, hpos, ?_⟩
      · show (src.slice lx.place stop).head? = some c
        rw [hslice]
        rfl
      · show lx.place + _ ≤ stop
        omega
      · show embedLexeme (src.slice (lx.place + 1) stop) = _
        rw [src.slice_tail hslice]
        exact hgroups

/-- How long the name of a command is, from the place behind its sigil on. -/
def nameLength (place : Nat) (name : Option HeadName) : Nat :=
  (name.map fun n => n.span.stop).getD place - place

/-- A run of characters that is followed by no bracket is read to its end, wherever the line with it ends. -/
theorem run_embedGroups {p : Char → Bool} {k : Nat} (hbrace : p '{' = false) (hbracket : p '[' = false)
    (htoken : embedGroups fuel (1 + (runLength p ds + 1)) ((c :: ds).drop (runLength p ds + 1)) = ⟨.ok .embed, total⟩)
    (hnext : ∀ d, (c :: ds)[runLength p (ds.take k) + 1]? = some d → runLength p (ds.take k) + 1 + 1 < total →
      d = '{' ∨ d = '[') : runLength p (ds.take k) = runLength p ds := by
  obtain ⟨hle, -⟩ := embedGroups_bound fuel (1 + (runLength p ds + 1)) ((c :: ds).drop (runLength p ds + 1))
  rw [htoken] at hle
  dsimp only at hle
  rcases runLength_take p ds k with heq | ⟨hlt, d, hd, hpart⟩
  · exact heq
  · rcases hnext d hd (by omega) with rfl | rfl
    · exact absurd (hpart.symm.trans hbrace) (by decide)
    · exact absurd (hpart.symm.trans hbracket) (by decide)

/-- A character that may start a word but may not stand in one is no name for the lexer. -/
theorem embedLexeme_wordPart (hstart : isWordStart c = true) (htoken : embedLexeme (c :: ds) = ⟨.ok .embed, total⟩) :
    isWordPart c = true := by
  by_contra hno
  have hpart : isWordPart c = false := by simpa using hno
  have hzero : runLength isWordPart (c :: ds) = 0 := by simp [runLength, hpart]
  have hne : ∀ d, isWordStart d = false → c ≠ d := by
    rintro d hd rfl
    exact absurd (hstart.symm.trans hd) (by decide)
  unfold embedLexeme at htoken
  dsimp only at htoken
  rw [hstart, if_pos rfl, hzero] at htoken
  unfold embedGroups at htoken
  split at htoken
  · rename_i heq
    exact hne '[' (by decide) (List.cons.inj heq).1
  · rename_i heq
    exact hne '{' (by decide) (List.cons.inj heq).1
  · exact absurd (congrArg Lexeme.kind htoken) (by simp)

/-- **The lexer takes the name of a head**, if behind it the text of the command ends or one of its groups follows. -/
theorem name_embedGroups {name : Option HeadName} {k : Nat} (hname : Head.readName? place (cs.take k) = some name)
    (htoken : embedLexeme cs = ⟨.ok .embed, total⟩)
    (hnext : ∀ d, cs[nameLength place name]? = some d → nameLength place name + 1 < total → d = '{' ∨ d = '[') :
    ∃ fuel, embedGroups (fuel + 1) (1 + nameLength place name) (cs.drop (nameLength place name)) =
      ⟨.ok .embed, total⟩ := by
  cases cs with
  | nil => exact absurd hname (by simp [Head.readName?])
  | cons c ds =>
  cases k with
  | zero => exact absurd hname (by simp [Head.readName?])
  | succ k =>
  have hpart := fun hstart => embedLexeme_wordPart hstart htoken
  rw [List.take_succ_cons] at hname
  unfold Head.readName? at hname
  unfold embedLexeme at htoken
  dsimp only at hname htoken
  rcases hstart : isWordStart c with _ | _
  · have hword : wordLength? (c :: ds.take k) = none := by rw [wordLength?, hstart, if_neg Bool.false_ne_true]
    rw [hword] at hname
    rw [hstart, if_neg Bool.false_ne_true] at htoken
    dsimp only at hname
    split at hname
    · -- a digit
      rename_i hdigit
      obtain rfl := Option.some.inj hname
      have hlength : nameLength place (some (.plain ⟨place, place + 1⟩)) = 1 := Nat.add_sub_cancel_left place 1
      rw [if_pos hdigit, runLength_cons isDigit hdigit] at htoken
      rw [hlength] at hnext ⊢
      have hrun : runLength isDigit (ds.take 0) = runLength isDigit ds :=
        run_embedGroups (by decide) (by decide) htoken hnext
      rw [← hrun] at htoken
      exact ⟨_, htoken⟩
    rename_i hdigit
    rw [if_neg hdigit] at htoken
    split at hname
    · -- an expression in parentheses
      rename_i hparen
      rw [if_pos hparen] at htoken
      obtain ⟨n, hgroup, rfl⟩ := Option.map_eq_some_iff.mp hname
      have hlt := groupLength?_lt hgroup
      rw [List.length_take] at hlt
      have hwhole : groupLength? .paren ds = some n := by
        refine closingBracket?_stable hgroup ?_
        rw [List.take_take, Nat.min_eq_left (by omega)]
      have hlength : nameLength place (some (.computed ⟨place, place + n + 2⟩)) = n + 2 := by
        show place + n + 2 - place = n + 2
        omega
      rw [hwhole] at htoken
      rw [hlength, Nat.add_comm 1]
      exact ⟨_, htoken⟩
    rename_i hparen
    rw [if_neg hparen] at htoken
    split at hname
    · obtain rfl := Option.some.inj hname
      have hlength : nameLength place none = 0 := Nat.sub_self place
      rw [hlength]
      exact ⟨_, htoken⟩
    · exact absurd hname (by simp)
  · -- a word
    have hword : wordLength? (c :: ds.take k) = some (runLength isWordPart (ds.take k) + 1) := by
      rw [wordLength?, hstart, if_pos rfl]
    rw [hword] at hname
    obtain rfl := Option.some.inj hname
    have hlength : nameLength place (some (.plain ⟨place, place + (runLength isWordPart (ds.take k) + 1)⟩)) =
        runLength isWordPart (ds.take k) + 1 := Nat.add_sub_cancel_left place _
    rw [hstart, if_pos rfl, runLength_cons isWordPart (hpart hstart)] at htoken
    rw [hlength] at hnext ⊢
    have hrun : runLength isWordPart (ds.take k) = runLength isWordPart ds :=
      run_embedGroups (by decide) (by decide) htoken hnext
    rw [← hrun] at htoken
    exact ⟨_, htoken⟩

/-- An attribute list starts with a bracket. -/
theorem readAttributes?_first {s : Span} {k : Nat} (h : Head.readAttributes? place (cs.take k) = some s) :
    ∃ ds, cs = '[' :: ds ∧ (groupLength? .square (ds.take (k - 1))).map (fun n => ⟨place, place + n + 2⟩) = some s := by
  unfold Head.readAttributes? at h
  split at h
  · rename_i ds hds
    cases cs with
    | nil => exact absurd hds (by simp)
    | cons c cs =>
        cases k with
        | zero => exact absurd hds (by simp)
        | succ k =>
            obtain ⟨rfl, rfl⟩ := List.cons.inj hds
            exact ⟨cs, rfl, h⟩
  · exact absurd h (by simp)

/-- **The lexer takes the attribute list of a head.** -/
theorem attributes_embedGroups {s : Span} {k : Nat} (hlist : Head.readAttributes? place (cs.take k) = some s)
    (h : embedGroups (fuel + 1) length cs = ⟨.ok .embed, total⟩) :
    embedGroups fuel (length + (s.stop - place)) (cs.drop (s.stop - place)) = ⟨.ok .embed, total⟩ := by
  obtain ⟨ds, rfl, hgroups⟩ := readAttributes?_first hlist
  obtain ⟨n, hgroup, rfl⟩ := Option.map_eq_some_iff.mp hgroups
  have hlt := groupLength?_lt hgroup
  rw [List.length_take] at hlt
  have hwhole : groupLength? .square ds = some n := by
    refine closingBracket?_stable hgroup ?_
    rw [List.take_take, Nat.min_eq_left (by omega)]
  unfold embedGroups at h
  simp only [hwhole] at h
  have hstop : place + n + 2 - place = n + 1 + 1 := by omega
  show embedGroups fuel (length + (place + n + 2 - place)) (List.drop (place + n + 2 - place) ('[' :: ds)) = _
  rw [hstop]
  exact h

/-- **The lexer takes the head of a command** that the rules for inline content read, and goes on with the groups behind
it. -/
theorem head_embedGroups {start limit stop : Nat} {head : Head} (hread : Head.read? src start 1 limit = some head)
    (hlimit : limit ≤ stop) (hstop : stop ≤ src.size)
    (htoken : embedLexeme (src.slice (start + 1) stop) = ⟨.ok .embed, total⟩) (hwithin : start + total ≤ stop)
    (hopens : (src.slice head.stop (start + total)).head?.all (· == '{') = true) :
    ∃ fuel length, embedGroups fuel length (src.slice head.stop stop) = ⟨.ok .embed, total⟩ ∧
      head.stop = start + length := by
  simp only [Head.read?, Option.bind_eq_bind, Option.bind_eq_some_iff] at hread
  obtain ⟨name, hname, hread⟩ := hread
  have hlt : start + 1 < limit := by
    cases hrest : src.slice (start + 1) limit with
    | nil => exact absurd hname (by simp [hrest, Head.readName?])
    | cons c cs => exact src.lt_of_slice_cons hrest
  have hlen := src.length_slice (i := start + 1) (Nat.le_trans hlimit hstop)
  obtain ⟨hnext, hnextLimit, -⟩ := Head.readName?_run src hname (by omega)
  have hlength : (name.map fun n => n.span.stop).getD (start + 1) = start + 1 + nameLength (start + 1) name := by
    unfold nameLength
    omega
  rw [hlength] at hread hnextLimit
  rw [hlen] at hnextLimit
  have htake : src.slice (start + 1) limit = (src.slice (start + 1) stop).take (limit - (start + 1)) := by
    rw [src.slice_take (by omega), Nat.add_sub_cancel' (Nat.le_of_lt hlt)]
  rw [htake] at hname
  have htail : src.slice (start + 1 + nameLength (start + 1) name) limit =
      (src.slice (start + 1 + nameLength (start + 1) name) stop).take
        (limit - (start + 1 + nameLength (start + 1) name)) := by
    rw [src.slice_take (by omega), Nat.add_sub_cancel' (by omega)]
  have hnamed := name_embedGroups hname htoken
  rw [Source.slice_drop] at hnamed
  -- the character behind the name
  have hfirst : ∀ d, (src.slice (start + 1) stop)[nameLength (start + 1) name]? = some d →
      ∃ ds, src.slice (start + 1 + nameLength (start + 1) name) stop = d :: ds := by
    intro d hd
    rw [← List.head?_drop, Source.slice_drop] at hd
    exact List.head?_eq_some_iff.mp hd
  split at hread
  · exact absurd hread (by simp)
  obtain rfl := Option.some.inj hread
  cases hlist : Head.readAttributes? (start + 1 + nameLength (start + 1) name)
      (src.slice (start + 1 + nameLength (start + 1) name) limit) with
  | none =>
      have hend : (Head.mk ⟨start, start + 1⟩ name none).stop = start + 1 + nameLength (start + 1) name := by
        rw [← hlength]
        cases name <;> rfl
      rw [hlist, hend] at hopens
      obtain ⟨fuel, hgroups⟩ := hnamed fun d hd hmore => by
        obtain ⟨ds, hds⟩ := hfirst d hd
        have hhere : src.slice (start + 1 + nameLength (start + 1) name) (start + total) =
            (d :: ds).take (start + total - (start + 1 + nameLength (start + 1) name)) := by
          rw [← hds, src.slice_take (by omega), Nat.add_sub_cancel' (by omega)]
        obtain ⟨k, hk⟩ : ∃ k, start + total - (start + 1 + nameLength (start + 1) name) = k + 1 :=
          ⟨total - nameLength (start + 1) name - 2, by omega⟩
        rw [hhere, hk] at hopens
        exact .inl (beq_iff_eq.mp hopens)
      rw [hend]
      exact ⟨_, _, hgroups, by omega⟩
  | some s =>
      obtain ⟨hstart, hle, -⟩ := Head.readAttributes?_bound hlist
      rw [htail] at hlist
      obtain ⟨fuel, hgroups⟩ := hnamed fun d hd _ => by
        obtain ⟨ds, hds⟩ := hfirst d hd
        obtain ⟨es, hes, -⟩ := readAttributes?_first hlist
        exact .inr (List.cons.inj (hds.symm.trans hes)).1
      have hlistGroups := attributes_embedGroups hlist hgroups
      rw [Source.slice_drop, Nat.add_sub_cancel' (by omega)] at hlistGroups
      exact ⟨_, _, hlistGroups, by show s.stop = _; omega⟩

end ComponentMarkup.Script

namespace ComponentMarkup.Document

open ComponentMarkup.Text ComponentMarkup.Tree ComponentMarkup.Script ComponentMarkup.Markup

variable {src : Source} {range s : Span} {head : Head} {text : String} {n : Nat}

/-- The form of a command that the lexer of scripts and the rules for inline content read alike.  The head stands on the
first line.  Behind it there is nothing or a body, and in the bodies and between them nothing hides a brace.  A command
without a name is a component with a body. -/
structure PlainForm (src : Source) (s : Span) (head : Head) : Prop where
  read : ∃ line, (lineSpans src s).head? = some line ∧ Head.read? src s.start 1 line.stop = some head
  named : head.name.isSome = true ∨ (src.slice s.start s.stop).head? = some '@' ∧ src.slice head.stop s.stop ≠ []
  opens : (src.slice head.stop s.stop).head?.all (· == '{') = true
  clear : hidesNothing (src.slice head.stop s.stop) = true

/-- **A command of a plain form is one command**: wherever the lexer of scripts finds a token that is one, its text is
read as a single command that covers it, unless nesting gets too deep. -/
theorem embed_readsCommand (hle : range.start ≤ range.stop) (hstop : range.stop ≤ src.size)
    (htoken : ((Lexer.ofSpan src range).skip n).next.1 = .leaf (.script .embed) text s) (hform : PlainForm src s head)
    (hcalm : (readInlineContent src s).overflow = none) : ReadsCommand src s := by
  have hreads : (Lexer.ofSpan src range).Reads src range.stop := ⟨hle, hstop, rfl⟩
  obtain ⟨c, total, hsigil, hfirst, hend, hwithin, hpos, hgroups⟩ := next_embed (hreads.skip n) htoken
  obtain ⟨line, hline, hread⟩ := hform.read
  have hsize := Nat.le_trans hwithin hstop
  have hlimit : line.stop ≤ s.stop := by
    have hregion : Region s.start s.stop (lineSpans src s) := lineSpans_region (by omega) hsize
    exact (hregion.lines.mem (List.mem_of_head? hline)).2.2
  have hhere : src.slice s.start s.stop = (src.slice s.start range.stop).take total := by
    rw [hend, src.slice_take (hend ▸ hwithin)]
  have hsame : (src.slice s.start s.stop).head? = some c := by
    obtain ⟨cs, hcs⟩ := List.head?_eq_some_iff.mp hfirst
    obtain ⟨k, rfl⟩ := Nat.exists_eq_add_of_lt hpos
    rw [hhere, hcs, Nat.zero_add]
    rfl
  obtain ⟨fuel, length, hbehind, hhead⟩ := head_embedGroups hread (Nat.le_trans hlimit hwithin) hstop hgroups
    (hend ▸ hwithin) (hend ▸ hform.opens)
  have hle' : length ≤ total := by
    obtain ⟨hbound, -⟩ := embedGroups_bound fuel length (src.slice head.stop range.stop)
    rwa [hbehind] at hbound
  have hmore : (src.slice head.stop range.stop).take (total - length) = src.slice head.stop s.stop := by
    rw [src.slice_take (by omega), show head.stop + (total - length) = s.stop by omega]
  have hclear := hform.clear
  have hopens := hform.opens
  rw [← hmore] at hclear hopens
  have hbodies := embedGroups_bodies hbehind hclear fun hbracket => by
    rw [hbracket] at hopens
    exact absurd hopens (by decide)
  rw [hmore] at hbodies
  refine StartsCommand.reads ⟨hsigil, hsame, hform.read, hform.named.imp id fun ⟨hat, hbody⟩ => ⟨?_, hbody⟩, hbodies,
    hform.clear⟩ (by omega) hsize hcalm
  exact Option.some.inj (hsame.symm.trans hat)

/-- A command with an attribute list and two bodies, one of them over two lines, in a call. -/
theorem embed_readsCommand_bodies :
    let src := Source.ofString "f(#em[x: 1]\x7ba *b* \x7bc\x7d\n\\\x7dd\x7d\x7be\x7d)"
    ((Lexer.ofSpan src ⟨0, 30⟩).skip 2).next.1 =
      .leaf (.script .embed) "#em[x: 1]\x7ba *b* \x7bc\x7d\n\\\x7dd\x7d\x7be\x7d" ⟨2, 29⟩ ∧
    (readInlineContent src ⟨2, 29⟩).overflow = none ∧ ReadsCommand src ⟨2, 29⟩ := by
  have htoken : ((Lexer.ofSpan (.ofString "f(#em[x: 1]\x7ba *b* \x7bc\x7d\n\\\x7dd\x7d\x7be\x7d)") ⟨0, 30⟩).skip 2).next.1 =
      .leaf (.script .embed) "#em[x: 1]\x7ba *b* \x7bc\x7d\n\\\x7dd\x7d\x7be\x7d" ⟨2, 29⟩ := by rfl
  have hcalm : (readInlineContent (.ofString "f(#em[x: 1]\x7ba *b* \x7bc\x7d\n\\\x7dd\x7d\x7be\x7d)") ⟨2, 29⟩).overflow =
      none := by decide +kernel
  have hform : PlainForm (.ofString "f(#em[x: 1]\x7ba *b* \x7bc\x7d\n\\\x7dd\x7d\x7be\x7d)") ⟨2, 29⟩
      ⟨⟨2, 3⟩, some (.plain ⟨3, 5⟩), some ⟨5, 11⟩⟩ :=
    ⟨⟨⟨2, 21⟩, by decide +kernel, by decide +kernel⟩, .inl rfl, by decide +kernel, by decide +kernel⟩
  have hsize : (30 : Nat) ≤ (Source.ofString "f(#em[x: 1]\x7ba *b* \x7bc\x7d\n\\\x7dd\x7d\x7be\x7d)").size := by
    decide +kernel
  exact ⟨htoken, hcalm, embed_readsCommand (Nat.zero_le 30) hsize htoken hform hcalm⟩

/-- **Not every command in a script is one command.**  The lexer of scripts takes all digits of a number as the name of a
command, where a command is named by a single digit. -/
theorem embed_not_readsCommand : ¬ ∀ (src : Source) (range s : Span) (n : Nat) (text : String),
    range.start ≤ range.stop → range.stop ≤ src.size →
    ((Lexer.ofSpan src range).skip n).next.1 = .leaf (.script .embed) text s → ReadsCommand src s := by
  intro h
  have htoken : ((Lexer.ofSpan (.ofString "#12") ⟨0, 3⟩).skip 0).next.1 = .leaf (.script .embed) "#12" ⟨0, 3⟩ := by rfl
  have hsize : (Source.ofString "#12").size = 3 := by decide +kernel
  obtain ⟨-, command, hchildren, -⟩ := h (.ofString "#12") ⟨0, 3⟩ ⟨0, 3⟩ 0 "#12" (Nat.zero_le _) (by rw [hsize]) htoken
  have hlength : (readInlineContent (.ofString "#12") ⟨0, 3⟩).value.children.length = 2 := by decide +kernel
  rw [hchildren, List.length_singleton] at hlength
  exact absurd hlength (by decide)

end ComponentMarkup.Document
