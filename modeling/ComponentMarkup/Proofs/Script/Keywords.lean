import ComponentMarkup.Proofs.Script.Locality
import ComponentMarkup.Proofs.Script.TokenEnd

/-!
# Words that are reserved and words that name members

A reserved word names a member behind a dot or an optional chain.  The lexer decides this by the characters in
front of the word and not by the token in front of it.  The two agree unless a comment comes between a dot and
the word, a comment or a broken string ends in a dot itself, a dot is run together with a spread, or the text
before the script ends in a dot.

* `Lexer.skip`, `Lexer.read` — the lexer behind a number of tokens, and these tokens;
* `Backward` — what a token looks like from behind;
* `Telling` — the characters in front of a word tell what the tokens in front of it do;
* `reserved_word_kind` — exactly then a reserved word is classified by the token in front of it.
-/

namespace ComponentMarkup.Script

open ComponentMarkup.Text ComponentMarkup.Tree

variable {lx : Lexer} {k : ScriptKind} {n : Nat}

/-! ## Tokens one after the other -/

/-- The lexer behind a number of tokens. -/
def Lexer.skip (lx : Lexer) : Nat → Lexer
  | 0 => lx
  | n + 1 => (lx.skip n).next.2

/-- The tokens that were skipped, white space and comments included, the last one first. -/
def Lexer.read (lx : Lexer) : Nat → List Node
  | 0 => []
  | n + 1 => (lx.skip n).next.1 :: lx.read n

/-- The characters of tokens that stand one before the other, each from its last to its first. -/
def charsBack (tokens : List Node) : List Char :=
  tokens.flatMap fun t => t.text.toList.reverse

/-- The token in front of a lexer with characters to read, and the lexer behind it. -/
theorem Lexer.next_cons {c : Char} {cs : List Char} (h : lx.rest = c :: cs) :
    lx.next.2 = lx.advance (lexeme lx.before c cs).length ∧
      lx.next.1.text = String.ofList (lx.rest.take (lexeme lx.before c cs).length) ∧
      lx.next.1.kind = match (lexeme lx.before c cs).kind with
        | .ok kind => .script kind
        | .error _ => .fault := by
  unfold Lexer.next
  rw [h]
  dsimp only
  cases (lexeme lx.before c cs).kind <;> exact ⟨rfl, rfl, rfl⟩

theorem Lexer.next_nil (h : lx.rest = []) :
    lx.next = (.leaf (.script .endOfTokens) "" ⟨lx.place, lx.place⟩, lx) := by
  simp only [Lexer.next, h]

/-- A token moves from the characters ahead to those behind. -/
theorem Lexer.before_next (lx : Lexer) : lx.next.2.before = lx.next.1.text.toList.reverse ++ lx.before := by
  cases hrest : lx.rest with
  | nil =>
      rw [Lexer.next_nil hrest]
      rfl
  | cons c cs =>
      obtain ⟨hlexer, htext, _⟩ := Lexer.next_cons hrest
      rw [hlexer, htext, String.toList_ofList]
      rfl

theorem Lexer.before_skip (lx : Lexer) (n : Nat) : (lx.skip n).before = charsBack (lx.read n) ++ lx.before := by
  induction n with
  | zero => rfl
  | succ n ih =>
      rw [Lexer.skip, Lexer.before_next, ih, Lexer.read, charsBack, charsBack, List.flatMap_cons,
        List.append_assoc]

/-! ## Tokens from behind -/

/-- The characters of a token of a kind, last first. -/
inductive Backward : Kind → List Char → Prop
  /-- White space. -/
  | space {cs : List Char} (white : ∀ c ∈ cs, isWhitespace c = true) : Backward (.script .space) cs
  /-- A comment up to the end of its line. -/
  | lineComment (cs : List Char) : Backward (.script .lineComment) (cs ++ ['/', '/'])
  /-- A comment that ends in a slash. -/
  | blockComment (cs : List Char) : Backward (.script .blockComment) ('/' :: cs)
  /-- A dot. -/
  | dot : Backward (.script .dot) ['.']
  /-- A spread. -/
  | dots : Backward (.script .dots) ['.', '.', '.']
  /-- The mark of an optional chain. -/
  | questionDot : Backward (.script .questionDot) ['.', '?']
  /-- A comma. -/
  | comma : Backward (.script .comma) [',']
  /-- Any other token: it ends in a plain character. -/
  | plain {k : ScriptKind} {c : Char} {cs : List Char} (ordinary : k ∉ specialEnd) (last : IsPlain c) :
      Backward (.script k) (c :: cs)
  /-- A fault, whatever its characters. -/
  | fault (cs : List Char) : Backward .fault cs

/-- The characters of a token of its shape, from behind. -/
theorem TokenShape.backward {cs : List Char} (h : TokenShape k cs n) :
    Backward (.script k) (cs.take n).reverse := by
  have hreverse : ∀ {front : List Char}, cs.take n = front → (cs.take n).reverse = front.reverse :=
    fun h => congrArg List.reverse h
  unfold TokenShape at h
  split at h
  · exact .space fun c hc => h c (List.mem_reverse.mp hc)
  · obtain ⟨rest, hrest⟩ := h
    rw [hreverse hrest, List.reverse_cons, List.reverse_cons, List.append_assoc]
    exact .lineComment _
  · obtain ⟨c, before, hback, rfl⟩ := h.reverse_take
    rw [hback]
    exact .blockComment _
  · rw [hreverse h]
    exact .dot
  · rw [hreverse h]
    exact .dots
  · rw [hreverse h]
    exact .questionDot
  · rw [hreverse h]
    exact .comma
  · obtain ⟨c, before, hback, hplain⟩ := h.reverse_take
    rw [hback]
    refine .plain ?_ hplain
    simp_all [specialEnd]

theorem Lexer.next_backward (h : lx.rest ≠ []) : Backward lx.next.1.kind lx.next.1.text.toList.reverse := by
  obtain ⟨c, cs, hrest⟩ := List.exists_cons_of_ne_nil h
  obtain ⟨_, htext, hkind⟩ := Lexer.next_cons hrest
  rw [hkind, htext, String.toList_ofList]
  cases htoken : (lexeme lx.before c cs).kind with
  | error message => exact .fault _
  | ok kind =>
      rw [hrest]
      exact (lexeme_shape lx.before c cs kind htoken).backward

/-- All tokens in front of a character that is still to be read look like that. -/
theorem Lexer.read_backward (h : (lx.skip n).rest ≠ []) :
    ∀ t ∈ lx.read n, Backward t.kind t.text.toList.reverse := by
  induction n with
  | zero => exact fun t ht => absurd ht List.not_mem_nil
  | succ n ih =>
      have hrest : (lx.skip n).rest ≠ [] := by
        intro hnil
        rw [Lexer.skip, Lexer.next_nil hnil] at h
        exact h hnil
      intro t ht
      rcases List.mem_cons.mp ht with rfl | ht
      · exact Lexer.next_backward hrest
      · exact ih hrest t ht

/-! ## Reserved words -/

/-- The characters that reserved words start with. -/
def reservedStart : List Char :=
  ['l', 'c', 'v', 'f', 'a', 'r', 'i', 'e', 'w', 'o', 't', 'n', 'b', 'd', 'u']

theorem reservedWord?_start {word : String} (h : reservedWord? word = some k) :
    ∃ c cs, word.toList = c :: cs ∧ c ∈ reservedStart := by
  unfold reservedWord? at h
  split at h <;> first
    | exact ⟨_, _, rfl, by decide⟩
    | exact absurd h (Option.some_ne_none k).symm

theorem reservedWord?_ne_ident {word : String} (h : reservedWord? word = some k) : k ≠ .ident := by
  unfold reservedWord? at h
  split at h <;> first
    | obtain rfl := Option.some.inj h
      decide
    | exact absurd h (Option.some_ne_none k).symm

/-- What starts like a reserved word is a word. -/
theorem lexeme_of_reservedStart (before : List Char) {c : Char} (cs : List Char) (hc : c ∈ reservedStart) :
    lexeme before c cs = wordLexeme before c cs := by
  simp only [reservedStart, List.mem_cons, List.not_mem_nil, or_false] at hc
  rcases hc with rfl | rfl | rfl | rfl | rfl | rfl | rfl | rfl | rfl | rfl | rfl | rfl | rfl | rfl | rfl <;> rfl

/-- A reserved word is classified by the characters in front of it. -/
theorem Lexer.next_reserved (h : reservedWord? lx.next.1.text = some k) :
    lx.rest ≠ [] ∧ lx.next.1.kind = .script (if followsDot lx.before then .ident else k) := by
  obtain ⟨c, cs, hword, hc⟩ := reservedWord?_start h
  cases hrest : lx.rest with
  | nil =>
      rw [Lexer.next_nil hrest] at hword
      exact absurd hword (List.cons_ne_nil c cs).symm
  | cons d ds =>
      obtain ⟨_, htext, hkind⟩ := Lexer.next_cons hrest
      obtain ⟨hpos, _⟩ := lexeme_fits lx.before d ds
      have hd : d = c := by
        obtain ⟨m, hm⟩ : ∃ m, (lexeme lx.before d ds).length = m + 1 :=
          ⟨(lexeme lx.before d ds).length - 1, by omega⟩
        rw [htext, String.toList_ofList, hrest, hm, List.take_succ_cons] at hword
        exact (List.cons.inj hword).1
      subst hd
      have htoken := lexeme_of_reservedStart lx.before ds hc
      have hall : lx.rest.take (wordLexeme lx.before d ds).length = d :: ds.takeWhile isWordPart := by
        rw [hrest]
        exact congrArg (d :: ·) (take_runLength isWordPart ds)
      rw [htoken, hall] at htext
      rw [htext] at h
      refine ⟨List.cons_ne_nil d ds, ?_⟩
      rw [hkind, htoken]
      simp only [wordLexeme, h, Option.getD_some]

/-! ## What stands in front of a word -/

/-- Whether the last token that is neither white space nor a comment is a dot or an optional chain. -/
def followsMember (read : List Node) : Bool :=
  (read.dropWhile (·.kind.isTrivia)).head?.any fun t => t.isScript .dot || t.isScript .questionDot

/-- The last comment behind that token. -/
def lastComment? (read : List Node) : Option Node :=
  (read.takeWhile (·.kind.isTrivia)).find? fun t => !t.isScript .space

/-- **The characters in front of a word tell of the tokens in front of it.**  A comment right before the word
must end in a dot if and only if a dot stands before the comment.  Without a comment, a broken token before
the word must not end in a dot, a dot not follow two others, and the text before the script not end in a dot if
there is no token. -/
def Telling (read : List Node) (before : List Char) : Prop :=
  match lastComment? read, read.dropWhile (·.kind.isTrivia) with
  | some comment, _ => followsDot comment.text.toList.reverse = followsMember read
  | none, [] => followsDot before = false
  | none, t :: earlier =>
    (t.isFault → followsDot (charsBack (t :: earlier) ++ before) = false) ∧
      (t.isScript .dot → (charsBack earlier ++ before).take 2 ≠ ['.', '.'])

/-- White space in front of a word does not matter. -/
theorem followsDot_append_white {white : List Char} (h : ∀ c ∈ white, isWhitespace c = true)
    (before : List Char) : followsDot (white ++ before) = followsDot before := by
  have hskip : (white ++ before).dropWhile isWhitespace = before.dropWhile isWhitespace :=
    List.dropWhile_append_of_pos h
  unfold followsDot
  rw [hskip]

/-- A plain character in front of a word is no dot. -/
theorem followsDot_plain {c : Char} (h : IsPlain c) (before : List Char) :
    followsDot (c :: before) = false :=
  followsDot_of_ne (List.dropWhile_cons_of_neg (Bool.eq_false_iff.mp h.2.2)) h.1

/-- What stands before the slashes of a comment does not matter behind it. -/
theorem followsDot_comment (comment before : List Char) :
    followsDot (comment ++ '/' :: '/' :: before) = followsDot (comment ++ ['/', '/']) := by
  have hdrop : ∀ more : List Char, (comment ++ '/' :: '/' :: more).dropWhile isWhitespace =
      comment.dropWhile isWhitespace ++ '/' :: '/' :: more := by
    intro more
    rw [List.dropWhile_append]
    split
    · rename_i hnil
      rw [List.isEmpty_iff.mp hnil]
      rfl
    · rfl
  have hwith := hdrop before
  have hwithout := hdrop []
  generalize comment.dropWhile isWhitespace = ds at hwith hwithout
  cases ds with
  | nil => rw [followsDot_of_ne hwith (by decide), followsDot_of_ne hwithout (by decide)]
  | cons d ds =>
      rw [List.cons_append] at hwith hwithout
      by_cases hd : d = '.'
      · subst hd
        have htake : (ds ++ '/' :: '/' :: before).take 2 = (ds ++ ['/', '/']).take 2 := by
          match ds with
          | [] => rfl
          | [_] => rfl
          | _ :: _ :: _ => rfl
        rw [followsDot_of_dot hwith, followsDot_of_dot hwithout, htake]
      · rw [followsDot_of_ne hwith hd, followsDot_of_ne hwithout hd]

/-- The characters of white space are white space. -/
theorem charsBack_white {tokens : List Node} (hback : ∀ t ∈ tokens, Backward t.kind t.text.toList.reverse)
    (hspace : ∀ t ∈ tokens, t.isScript .space = true) : ∀ c ∈ charsBack tokens, isWhitespace c = true := by
  intro c hc
  obtain ⟨t, ht, hct⟩ := List.mem_flatMap.mp hc
  have hb := hback t ht
  have hkind : t.kind = .script .space := beq_iff_eq.mp (hspace t ht)
  rw [hkind] at hb
  generalize t.text.toList.reverse = cs at hb hct
  cases hb with
  | space white => exact white c hct
  | plain ordinary _ => exact absurd (by decide) ordinary

/-- Behind a comment, the comment alone decides. -/
theorem followsDot_trivia {t : Node} (hback : Backward t.kind t.text.toList.reverse)
    (htrivia : t.kind.isTrivia = true) (hspace : t.isScript .space = false) (before : List Char) :
    followsDot (t.text.toList.reverse ++ before) = followsDot t.text.toList.reverse := by
  unfold Node.isScript at hspace
  generalize t.text.toList.reverse = cs at hback
  generalize t.kind = kind at hback htrivia hspace
  cases hback with
  | space white => exact absurd hspace (by decide)
  | lineComment cs =>
      rw [List.append_assoc]
      exact followsDot_comment cs before
  | blockComment cs =>
      rw [List.cons_append, followsDot_plain (by decide), followsDot_plain (by decide)]
  | dot | dots | questionDot | comma | fault => exact absurd htrivia (by decide)
  | @plain k c cs ordinary last =>
      refine absurd htrivia ?_
      revert ordinary
      cases k <;> decide

/-- Without a comment, the last token in front of the word decides. -/
theorem followsDot_token {t : Node} (hback : Backward t.kind t.text.toList.reverse)
    (htrivia : t.kind.isTrivia = false) (before : List Char) :
    followsDot (t.text.toList.reverse ++ before) = (t.isScript .dot || t.isScript .questionDot) ↔
      (t.isFault → followsDot (t.text.toList.reverse ++ before) = false) ∧
        (t.isScript .dot → before.take 2 ≠ ['.', '.']) := by
  unfold Node.isScript Node.isFault
  generalize t.text.toList.reverse = cs at hback
  generalize t.kind = kind at hback htrivia
  cases hback with
  | space | lineComment | blockComment => exact absurd htrivia (by decide)
  | dot =>
      have hdot : followsDot ('.' :: before) = (before.take 2 != ['.', '.']) := followsDot_of_dot rfl
      rw [List.singleton_append, hdot]
      simp
  | dots => simp [followsDot, isWhitespace]
  | questionDot => simp [followsDot, isWhitespace]
  | comma => simp [followsDot, isWhitespace]
  | fault cs =>
      have hnone : (Kind.fault == Kind.script .dot || Kind.fault == Kind.script .questionDot) = false := rfl
      rw [hnone]
      simp
  | @plain k c cs ordinary last =>
      have hkind : k ≠ .dot ∧ k ≠ .questionDot := by
        revert ordinary
        cases k <;> decide
      rw [List.cons_append, followsDot_plain last]
      simp [hkind]

/-- The characters in front of a word give the same answer as the tokens exactly if they tell of them. -/
theorem followsDot_iff_telling {read : List Node} (hback : ∀ t ∈ read, Backward t.kind t.text.toList.reverse)
    (before : List Char) : followsDot (charsBack read ++ before) = followsMember read ↔ Telling read before := by
  have hsplit : read = read.takeWhile (·.kind.isTrivia) ++ read.dropWhile (·.kind.isTrivia) :=
    List.takeWhile_append_dropWhile.symm
  have hgap : ∀ t ∈ read.takeWhile (·.kind.isTrivia), t.kind.isTrivia = true :=
    List.all_eq_true.mp List.all_takeWhile
  have hgapBack : ∀ t ∈ read.takeWhile (·.kind.isTrivia), Backward t.kind t.text.toList.reverse :=
    fun t ht => hback t ((List.takeWhile_prefix _).mem ht)
  have hrestBack : ∀ t ∈ read.dropWhile (·.kind.isTrivia), Backward t.kind t.text.toList.reverse :=
    fun t ht => hback t ((List.dropWhile_suffix _).mem ht)
  unfold Telling
  cases hcomment : lastComment? read with
  | some comment =>
      -- white space, the comment, and whatever stands before it
      obtain ⟨hnospace, spaces, earlier, happend, hspaces⟩ := List.find?_eq_some_iff_append.mp hcomment
      have hmem : comment ∈ read.takeWhile (·.kind.isTrivia) := by
        rw [happend]
        exact List.mem_append_right _ List.mem_cons_self
      have hchars : charsBack read ++ before = charsBack spaces ++ (comment.text.toList.reverse ++
          (charsBack earlier ++ charsBack (read.dropWhile (·.kind.isTrivia)) ++ before)) := by
        conv => lhs; rw [hsplit, happend]
        simp only [charsBack, List.flatMap_append, List.flatMap_cons, List.append_assoc]
      have hwhite : ∀ c ∈ charsBack spaces, isWhitespace c = true := by
        refine charsBack_white (fun t ht => hgapBack t ?_) (fun t ht => by simpa using hspaces t ht)
        rw [happend]
        exact List.mem_append_left _ ht
      rw [hchars, followsDot_append_white hwhite, followsDot_trivia (hgapBack comment hmem) (hgap comment hmem)
        (by simpa using hnospace)]
  | none =>
      have hwhite : ∀ c ∈ charsBack (read.takeWhile (·.kind.isTrivia)), isWhitespace c = true :=
        charsBack_white hgapBack fun t ht => by simpa using List.find?_eq_none.mp hcomment t ht
      have hchars : charsBack read ++ before = charsBack (read.takeWhile (·.kind.isTrivia)) ++
          (charsBack (read.dropWhile (·.kind.isTrivia)) ++ before) := by
        conv => lhs; rw [hsplit]
        simp only [charsBack, List.flatMap_append, List.append_assoc]
      rw [hchars, followsDot_append_white hwhite]
      unfold followsMember
      cases hrest : read.dropWhile (·.kind.isTrivia) with
      | nil => rfl
      | cons t earlier =>
          have hsolid : t.kind.isTrivia = false := by
            have hhead := List.head?_dropWhile_not (fun t : Node => t.kind.isTrivia) read
            rw [hrest] at hhead
            simpa using hhead
          have htoken := followsDot_token (hrestBack t (hrest ▸ List.mem_cons_self)) hsolid
            (charsBack earlier ++ before)
          have hcons : charsBack (t :: earlier) ++ before =
              t.text.toList.reverse ++ (charsBack earlier ++ before) := by
            simp only [charsBack, List.flatMap_cons, List.append_assoc]
          rw [← hcons] at htoken
          exact htoken

/-- **A reserved word of a script is classified by the token in front of it**, as a name behind a dot or an
optional chain and by its own kind otherwise, exactly if the characters in front of it tell of that token.
White space and comments in between, and the text around the script, then make no difference. -/
theorem reserved_word_kind (src : Source) (s : Span) (n : Nat) (k : ScriptKind)
    (hword : reservedWord? ((Lexer.ofSpan src s).skip n).next.1.text = some k) :
    ((Lexer.ofSpan src s).skip n).next.1.kind =
        .script (if followsMember ((Lexer.ofSpan src s).read n) then .ident else k) ↔
      Telling ((Lexer.ofSpan src s).read n) (src.slice 0 s.start).reverse := by
  obtain ⟨hrest, hkind⟩ := Lexer.next_reserved hword
  have hk := reservedWord?_ne_ident hword
  have hbefore : ((Lexer.ofSpan src s).skip n).before =
      charsBack ((Lexer.ofSpan src s).read n) ++ (src.slice 0 s.start).reverse :=
    Lexer.before_skip _ n
  rw [hkind, hbefore, ← followsDot_iff_telling (Lexer.read_backward hrest)]
  cases followsDot (charsBack ((Lexer.ofSpan src s).read n) ++ (src.slice 0 s.start).reverse) <;>
    cases followsMember ((Lexer.ofSpan src s).read n) <;>
      simp [hk, hk.symm]

/-- In `a . default` the reserved word names a member. -/
theorem reserved_word_kind_member :
    reservedWord? ((Lexer.ofSpan (.ofString "a . default") ⟨0, 11⟩).skip 4).next.1.text = some .defaultWord ∧
      ((Lexer.ofSpan (.ofString "a . default") ⟨0, 11⟩).skip 4).next.1.kind = .script .ident := by
  have hword : reservedWord? ((Lexer.ofSpan (.ofString "a . default") ⟨0, 11⟩).skip 4).next.1.text =
      some .defaultWord := by decide +kernel
  have hmember : followsMember ((Lexer.ofSpan (.ofString "a . default") ⟨0, 11⟩).read 4) = true := by
    decide +kernel
  have hkind := (reserved_word_kind (.ofString "a . default") ⟨0, 11⟩ 4 .defaultWord hword).mpr
    ⟨by decide +kernel, by decide +kernel⟩
  rw [hmember] at hkind
  exact ⟨hword, hkind⟩

/-- The token in front of a reserved word does not decide alone: behind the comment of `// end.` the word `let`
is taken for a name although no dot stands before it, and behind `a./**/` the word `default` for a keyword. -/
theorem reserved_word_kind_comment :
    (∃ n, reservedWord? ((Lexer.ofSpan (.ofString "// end.\nlet x = 1") ⟨0, 17⟩).skip n).next.1.text =
        some .letWord ∧
      followsMember ((Lexer.ofSpan (.ofString "// end.\nlet x = 1") ⟨0, 17⟩).read n) = false ∧
      ((Lexer.ofSpan (.ofString "// end.\nlet x = 1") ⟨0, 17⟩).skip n).next.1.kind ≠ .script .letWord) ∧
    ∃ n, reservedWord? ((Lexer.ofSpan (.ofString "a./**/default") ⟨0, 13⟩).skip n).next.1.text =
        some .defaultWord ∧
      followsMember ((Lexer.ofSpan (.ofString "a./**/default") ⟨0, 13⟩).read n) = true ∧
      ((Lexer.ofSpan (.ofString "a./**/default") ⟨0, 13⟩).skip n).next.1.kind ≠ .script .ident :=
  ⟨⟨2, by decide +kernel⟩, ⟨3, by decide +kernel⟩⟩

end ComponentMarkup.Script
