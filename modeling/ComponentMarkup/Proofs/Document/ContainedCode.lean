import ComponentMarkup.Document.Parse
import ComponentMarkup.Document.View
import ComponentMarkup.Proofs.Markup.BlockSlots
import ComponentMarkup.Proofs.Markup.WrittenLines
import ComponentMarkup.Proofs.Tree.Within

/-!
# Code inside other blocks

A block of code may stand in quotations and items of lists, to any depth.  Its lines are found behind the margins of
the blocks around it, but its code is the stretch of the text from the first line to the last: behind each line end
but the last, the margins are part of the code.  So what is written between the fences comes back line by line only if
there is one line, or no block around.

* `Container`, `enclosed`, `margins` — blocks that hold others, and lines written inside of them;
* `CodeTree` — a tree with one block of code in it, around which there are leaves only;
* `codeBlock_written`, `quoteBlock_written`, `listBlock_written` — what the rules make of written lines;
* `parse_enclosed` — the code of a block that is written inside others.
-/

namespace ComponentMarkup.Markup

open ComponentMarkup.Text ComponentMarkup.Tree ComponentMarkup.Document

/-! ## Blocks that hold others -/

/-- A block that holds other blocks. -/
inductive Container where
  /-- A quotation. -/
  | quote
  /-- An item of a list, with its marker and the number of blanks behind it. -/
  | item (marker : List Char) (blanks : Nat)

/-- A marker of an item: a bullet, or a number of up to nine digits with a dot or a parenthesis. -/
def IsItemMarker (marker : List Char) : Prop :=
  marker = ['-'] ∨ marker = ['*'] ∨ marker = ['+'] ∨
    ∃ digits mark, marker = digits ++ [mark] ∧ 1 ≤ digits.length ∧ digits.length ≤ 9 ∧
      (∀ d ∈ digits, isDigit d = true) ∧ (mark = '.' ∨ mark = ')')

namespace Container

/-- Whether the marker of an item is one, with one to four blanks behind it. -/
def Proper : Container → Prop
  | quote => True
  | item marker blanks => IsItemMarker marker ∧ 1 ≤ blanks ∧ blanks ≤ 4

/-- What stands before the first line inside. -/
def opening : Container → List Char
  | quote => ['>', ' ']
  | item marker blanks => marker ++ List.replicate blanks ' '

/-- What stands before every other line inside. -/
def margin : Container → List Char
  | quote => ['>', ' ']
  | item marker blanks => List.replicate (marker.length + blanks) ' '

/-- Lines written inside the block. -/
def around (c : Container) : List (List Char) → List (List Char)
  | [] => []
  | first :: others => (c.opening ++ first) :: others.map (c.margin ++ ·)

end Container

/-- Lines written inside several blocks, the outermost first. -/
def enclosed (containers : List Container) (block : List (List Char)) : List (List Char) :=
  containers.foldr Container.around block

/-- What stands before every line but the first inside several blocks. -/
def margins (containers : List Container) : List Char :=
  containers.flatMap Container.margin

/-! ## Markers of items -/

/-- A marker starts with a character that starts nothing else. -/
theorem IsItemMarker.head {marker : List Char} (h : IsItemMarker marker) :
    ∃ c cs, marker = c :: cs ∧ (c = '-' ∨ c = '*' ∨ c = '+' ∨ isDigit c = true) := by
  rcases h with rfl | rfl | rfl | ⟨digits, mark, rfl, hlength, -, hdigits, -⟩
  · exact ⟨_, _, rfl, .inl rfl⟩
  · exact ⟨_, _, rfl, .inr (.inl rfl)⟩
  · exact ⟨_, _, rfl, .inr (.inr (.inl rfl))⟩
  · obtain ⟨d, ds, rfl⟩ := List.exists_cons_of_length_pos hlength
    exact ⟨d, ds ++ [mark], rfl, .inr (.inr (.inr (hdigits d List.mem_cons_self)))⟩

/-- A marker is read as one, with a blank behind it. -/
theorem IsItemMarker.read? {marker : List Char} (h : IsItemMarker marker) (rest : List Char) :
    ∃ m, ListMarker.read? (marker ++ ' ' :: rest) = some m ∧ m.width = marker.length := by
  rcases h with rfl | rfl | rfl | ⟨digits, mark, rfl, hlength, hshort, hdigits, hmark⟩
  · exact ⟨_, rfl, rfl⟩
  · exact ⟨_, rfl, rfl⟩
  · exact ⟨_, rfl, rfl⟩
  · obtain ⟨d, ds, rfl⟩ := List.exists_cons_of_length_pos hlength
    have hplain : isDigit mark = false := by rcases hmark with rfl | rfl <;> rfl
    have hrun : runLength isDigit (d :: ds ++ mark :: ' ' :: rest) = (d :: ds).length := by
      rw [runLength, List.takeWhile_append_of_pos hdigits, List.takeWhile_cons_of_neg (by simp [hplain]),
        List.append_nil]
    have hbullet : ¬ (d == '-' || d == '*' || d == '+') = true := by
      intro hd
      have hdigit := hdigits d List.mem_cons_self
      simp only [Bool.or_eq_true, beq_iff_eq, or_assoc] at hd
      rcases hd with rfl | rfl | rfl <;> cases hdigit
    have hdelimiter : (mark == '.' || mark == ')') = true := by rcases hmark with rfl | rfl <;> rfl
    refine ⟨⟨mark, true, (d :: ds).length + 1⟩, ?_, by simp⟩
    rw [List.append_assoc, List.singleton_append]
    rw [List.cons_append] at hrun ⊢
    have hdrop : (d :: (ds ++ mark :: ' ' :: rest)).drop (d :: ds).length = mark :: ' ' :: rest := by
      rw [← List.cons_append, List.drop_left]
    have hfew : ds.length ≤ 8 := Nat.le_of_succ_le_succ hshort
    simp only [ListMarker.read?, if_neg hbullet, hrun, hdrop]
    simp [hdelimiter, endsOrBlank, isBlank]
    omega

/-! ## Trees with a block of code -/

/-- A leaf that is read by no other grammar and is no block of code. -/
def Ordinary (n : Node) : Prop :=
  ∃ kind text span, n = .leaf (.markup kind) text span ∧ choice? (.markup kind) = none ∧ kind ≠ .fencedCode

/-- The text of the first of some nodes that is a code text, or none. -/
def codeOf (ns : List Node) : String :=
  ((ns.find? fun n => n.kind == .markup .codeText).map Node.text).getD ""

/-- A tree with one block of code in it, around which there are leaves only. -/
inductive CodeTree (code : String) : Node → Prop where
  | block {span : Span} {children : List Node} (ordinary : ∀ c ∈ children, Ordinary c)
      (code_eq : codeOf children = code) : CodeTree code (.spanning (.markup .fencedCode) span none children)
  | around {kind : MarkupKind} {span : Span} {before after : List Node} {n : Node}
      (choice : choice? (.markup kind) = none) (other : kind ≠ .fencedCode) (ordinary_before : ∀ c ∈ before, Ordinary c)
      (ordinary_after : ∀ c ∈ after, Ordinary c) (inside : CodeTree code n) :
      CodeTree code (.spanning (.markup kind) span none (before ++ n :: after))

theorem Ordinary.leafOf {src : Source} {kind : MarkupKind} {a b : Nat} (hchoice : choice? (.markup kind) = none)
    (hkind : kind ≠ .fencedCode) : Ordinary (leafOf src kind a b) :=
  ⟨kind, _, _, rfl, hchoice, hkind⟩

theorem Ordinary.mapPlaces {n : Node} (h : Ordinary n) (f : Nat → Nat) : Ordinary (n.mapPlaces f) := by
  obtain ⟨kind, text, span, rfl, hchoice, hkind⟩ := h
  exact ⟨kind, text, _, rfl, hchoice, hkind⟩

theorem codeOf_mapPlaces (f : Nat → Nat) (ns : List Node) : codeOf (ns.map (Node.mapPlaces f)) = codeOf ns := by
  have hkind : ((fun n : Node => n.kind == .markup .codeText) ∘ Node.mapPlaces f) =
      fun n => n.kind == .markup .codeText := funext fun n => by simp
  have htext : Node.text ∘ Node.mapPlaces f = Node.text := funext fun n => by simp
  rw [codeOf, List.find?_map, hkind, Option.map_map, htext, codeOf]

namespace CodeTree

variable {code : String} {n : Node}

theorem mapPlaces (h : CodeTree code n) (f : Nat → Nat) : CodeTree code (n.mapPlaces f) := by
  have hmap : ∀ {ns : List Node}, (∀ c ∈ ns, Ordinary c) → ∀ c ∈ ns.map (Node.mapPlaces f), Ordinary c := by
    intro ns hns c hc
    obtain ⟨m, hm, rfl⟩ := List.mem_map.mp hc
    exact (hns m hm).mapPlaces f
  induction h with
  | block ordinary code_eq =>
      rw [Node.spanning_mapPlaces]
      exact .block (hmap ordinary) (by rw [codeOf_mapPlaces, code_eq])
  | around choice other before after _ ih =>
      rw [Node.spanning_mapPlaces, List.map_append, List.map_cons]
      exact .around choice other (hmap before) (hmap after) ih

/-- Nothing is grafted into such a tree. -/
theorem graft_eq (h : CodeTree code n) (host : Choice → Node → Limited Node) : graft host none n = ⟨n, none⟩ := by
  have hleaf : ∀ c, Ordinary c → graft host none c = ⟨c, none⟩ := by
    rintro c ⟨kind, text, span, rfl, hchoice, -⟩
    simp [graft, hchoice]
  have hleaves : ∀ ns rest, (∀ c ∈ ns, Ordinary c) → graftAll host none (ns ++ rest) =
      ⟨ns ++ (graftAll host none rest).value, (graftAll host none rest).overflow⟩ := by
    intro ns rest hns
    induction ns with
    | nil => rfl
    | cons c ns ih =>
        rw [List.cons_append, graftAll, hleaf c (hns c List.mem_cons_self)]
        simp only [ih fun d hd => hns d (List.mem_cons_of_mem c hd), List.cons_append]
  have hnone : ∀ ns, (∀ c ∈ ns, Ordinary c) → graftAll host none ns = ⟨ns, none⟩ := by
    intro ns hns
    have h := hleaves ns [] hns
    rw [List.append_nil] at h
    rw [h, graftAll, List.append_nil]
  have hbranch : ∀ {kind : MarkupKind} {span : Span} {children : List Node}, choice? (.markup kind) = none →
      graftAll host none children = ⟨children, none⟩ →
      graft host none (.spanning (.markup kind) span none children) =
        ⟨.spanning (.markup kind) span none children, none⟩ := by
    intro kind span children hchoice hchildren
    rw [Node.spanning, graft]
    simp only [Option.isSome_none, Bool.false_eq_true, if_false, hchoice, hchildren]
    split <;> rfl
  induction h with
  | block ordinary _ => exact hbranch rfl (hnone _ ordinary)
  | around choice _ before after _ ih =>
      refine hbranch choice ?_
      rw [hleaves _ _ before, graftAll, ih]
      simp only [hnone _ after]

/-- There is a block of code in such a tree. -/
theorem exists_block (h : CodeTree code n) : ∃ m, Node.Within n m ∧ m.isMarkup .fencedCode = true := by
  induction h with
  | block => exact ⟨_, .root, rfl⟩
  | around _ _ _ _ _ ih =>
      obtain ⟨m, hm, hkind⟩ := ih
      exact ⟨m, (Node.Within.child .root (List.mem_append_right _ List.mem_cons_self)).trans hm, hkind⟩

/-- Every block of code in such a tree has its code. -/
theorem view (h : CodeTree code n) {m : Node} (hm : Node.Within n m) (hkind : m.isMarkup .fencedCode = true) :
    ∃ language, view? m = some (.fencedCode language code) := by
  have hordinary : ∀ {c}, Ordinary c → ¬ Node.Within c m := by
    rintro c ⟨kind, text, span, rfl, -, hne⟩ hc
    rcases Node.Throughout.Within.cases_child hc with rfl | ⟨d, hd, -⟩
    · exact hne (by simpa [Node.isMarkup, Node.kind] using hkind)
    · exact absurd hd List.not_mem_nil
  induction h with
  | @block span children ordinary code_eq =>
      rcases Node.Throughout.Within.cases_child hm with rfl | ⟨c, hc, hin⟩
      · exact ⟨_, congrArg some (congrArg (View.fencedCode _) code_eq)⟩
      · exact absurd hin (hordinary (ordinary c hc))
  | around _ other before after _ ih =>
      rcases Node.Throughout.Within.cases_child hm with rfl | ⟨c, hc, hin⟩
      · exact absurd (by simpa [Node.isMarkup, Node.kind, Node.spanning] using hkind) other
      · rcases List.mem_append.mp hc with hc | hc
        · exact absurd hin (hordinary (before c hc))
        · rcases List.mem_cons.mp hc with rfl | hc
          · exact ih hin
          · exact absurd hin (hordinary (after c hc))

end CodeTree

/-! ## Filled gaps -/

section Gaps

variable {src : Source} {nodes : List Node}

/-- Gaps are filled with ordinary leaves, none of which is a code text. -/
theorem gapLeaves_ordinary (start place : Nat) (cs : List Char) :
    ∀ n ∈ gapLeaves src start place cs, Ordinary n ∧ (n.kind == .markup .codeText) = false := by
  have hspace : ∀ {start place : Nat}, ∀ n ∈ (if start < place then [leafOf src .space start place] else []),
      Ordinary n ∧ (n.kind == .markup .codeText) = false := by
    intro start place n hn
    split at hn
    · rw [List.mem_singleton.mp hn]
      exact ⟨.leafOf rfl (by decide), rfl⟩
    · exact absurd hn List.not_mem_nil
  induction cs generalizing start place with
  | nil => exact hspace
  | cons c cs ih =>
      unfold gapLeaves
      split
      · intro n hn
        rcases List.mem_append.mp hn with hn | hn
        · exact hspace n hn
        · rcases List.mem_cons.mp hn with rfl | hn
          · exact ⟨.leafOf rfl (by decide), rfl⟩
          · exact ih _ _ n hn
      · exact ih _ _

theorem gap_ordinary (start stop : Nat) :
    ∀ n ∈ gap src start stop, Ordinary n ∧ (n.kind == .markup .codeText) = false := by
  unfold gap
  split
  · exact gapLeaves_ordinary start start _
  · exact fun n hn => absurd hn List.not_mem_nil

theorem fill_ordinary (h : ∀ n ∈ nodes, Ordinary n) (cursor stop : Nat) :
    ∀ n ∈ fill src cursor stop nodes, Ordinary n := by
  induction nodes generalizing cursor with
  | nil => exact fun n hn => (gap_ordinary cursor stop n hn).1
  | cons m nodes ih =>
      intro n hn
      rcases List.mem_append.mp hn with hn | hn
      · exact (gap_ordinary _ _ n hn).1
      · rcases List.mem_cons.mp hn with rfl | hn
        · exact h n List.mem_cons_self
        · exact ih (fun k hk => h k (List.mem_cons_of_mem m hk)) _ n hn

/-- Filling gaps adds no code text. -/
theorem codeOf_fill (cursor stop : Nat) : codeOf (fill src cursor stop nodes) = codeOf nodes := by
  have hgap : ∀ a b, (gap src a b).find? (fun n => n.kind == .markup .codeText) = none :=
    fun a b => List.find?_eq_none.mpr fun n hn => by simp [(gap_ordinary a b n hn).2]
  have hfind : (fill src cursor stop nodes).find? (fun n => n.kind == .markup .codeText) =
      nodes.find? fun n => n.kind == .markup .codeText := by
    induction nodes generalizing cursor with
    | nil => exact hgap cursor stop
    | cons m nodes ih => rw [fill, List.find?_append, hgap, Option.none_or, List.find?_cons, List.find?_cons, ih]
  rw [codeOf, hfind, codeOf]

/-- A node with leaves around it has leaves around it when gaps are filled. -/
theorem fill_around (src : Source) (before after : List Node) (n : Node) (hbefore : ∀ c ∈ before, Ordinary c)
    (hafter : ∀ c ∈ after, Ordinary c) (cursor stop : Nat) : ∃ first last,
      fill src cursor stop (before ++ n :: after) = first ++ n :: last ∧ (∀ c ∈ first, Ordinary c) ∧
        ∀ c ∈ last, Ordinary c := by
  induction before generalizing cursor with
  | nil =>
      exact ⟨gap src cursor n.start, _, rfl, fun c hc => (gap_ordinary _ _ c hc).1, fill_ordinary hafter _ _⟩
  | cons m before ih =>
      obtain ⟨first, last, hfill, hfirst, hlast⟩ :=
        ih (fun c hc => hbefore c (List.mem_cons_of_mem m hc)) (max cursor m.stop)
      refine ⟨gap src cursor m.start ++ m :: first, last, ?_, fun c hc => ?_, hlast⟩
      · rw [List.cons_append, fill, hfill, List.append_assoc, List.cons_append]
      · rcases List.mem_append.mp hc with hc | hc
        · exact (gap_ordinary _ _ c hc).1
        · rcases List.mem_cons.mp hc with rfl | hc
          · exact hbefore c List.mem_cons_self
          · exact hfirst c hc

/-- A branch around a tree with a block of code. -/
theorem CodeTree.filled {code : String} {kind : MarkupKind} {n : Node} (h : CodeTree code n)
    (before after : List Node) (hchoice : choice? (.markup kind) = none) (hother : kind ≠ .fencedCode)
    (hbefore : ∀ c ∈ before, Ordinary c) (hafter : ∀ c ∈ after, Ordinary c) (start stop : Nat) :
    CodeTree code (filled src kind start stop (before ++ n :: after)) := by
  obtain ⟨first, last, hfill, hfirst, hlast⟩ := fill_around src before after n hbefore hafter start stop
  rw [Markup.filled, hfill]
  exact .around hchoice hother hfirst hlast h

end Gaps

/-! ## Rules that decline -/

section Rules

variable {env : BlockEnv} {line : Span} {later : List Span} {c : Char} {cs : List Char}

/-- A line that starts with none of five characters is left by the first five rules. -/
theorem declined (h : unindented env.source line = c :: cs) (hc : c ∉ ['/', '%', '|', '@', '$']) :
    ∀ rule ∈ [commentBlock, scriptBlock, attributeBlock, componentBlock, mathBlock], rule env line later = none := by
  simp only [List.mem_cons, List.not_mem_nil, or_false, not_or] at hc
  obtain ⟨hslash, hpercent, hbar, hat, hdollar⟩ := hc
  have hcomment : startsComment (c :: cs) = false := by simp [startsComment, hslash]
  have hkey : attributeKey? (c :: cs) = none := by
    unfold attributeKey?
    split
    · rename_i heq
      exact absurd (List.cons.inj heq).1 hbar
    · rfl
  have hmath : isMathFence (c :: cs) = false := by
    refine beq_false_of_ne fun heq => ?_
    have hprefix := trimEnd_prefix (c :: cs)
    rw [heq] at hprefix
    exact hdollar (List.cons_prefix_cons.mp hprefix).1.symm
  simp only [List.forall_mem_cons, List.not_mem_nil, false_implies, implies_true, and_true,
    ← Option.not_isSome_iff_eq_none, commentBlock_isSome, scriptBlock_isSome, attributeBlock_isSome,
    componentBlock_isSome, mathBlock_isSome, componentAt?, h]
  simp [hcomment, hpercent, hkey, hat, hmath]

theorem codeBlock_declined (h : unindented env.source line = c :: cs) (hc : c ∉ ['\x60', '~']) :
    codeBlock env line later = none := by
  simp only [List.mem_cons, List.not_mem_nil, or_false, not_or] at hc
  rw [← Option.not_isSome_iff_eq_none, codeBlock_isSome, h]
  simp [codeFence?, hc]

theorem headingBlock_declined (h : unindented env.source line = c :: cs) (hc : c ≠ '#') :
    headingBlock env line later = none := by
  have hlevel : runLength (· == '#') (c :: cs) = 0 := by simp [runLength, hc]
  rw [← Option.not_isSome_iff_eq_none, headingBlock_isSome, h]
  simp [headingLevel?, hlevel]

theorem quoteBlock_declined (h : unindented env.source line = c :: cs) (hc : c ≠ '>') :
    quoteBlock env line later = none := by
  rw [← Option.not_isSome_iff_eq_none, quoteBlock_isSome, h]
  simpa using hc

/-- The first rule that does not decline reads the block. -/
theorem readBlock_rule (before after : List BlockRule) {rule : BlockRule} {result : Limited (Node × List Span)}
    (hrules : blockRules = before ++ rule :: after) (hnone : ∀ r ∈ before, r env line later = none)
    (h : rule env line later = some result) : readBlock env line later = result := by
  have hbefore : before.findSome? (fun r => r env line later) = none := List.findSome?_eq_none_iff.mpr hnone
  rw [readBlock, hrules, List.findSome?_append, hbefore, Option.none_or, List.findSome?_cons_of_isSome (by simp [h]), h]
  rfl

end Rules

/-! ## Blocks of code -/

/-- A fence starts with at least three of its marks. -/
theorem codeFence?_head {text : List Char} {mark : Char} {width : Nat} (h : codeFence? text = some (mark, width)) :
    (mark = '\x60' ∨ mark = '~') ∧ 3 ≤ width ∧ ∃ rest, text = mark :: rest := by
  unfold codeFence? at h
  split at h
  · cases h
  · rename_i c cs
    dsimp only at h
    split at h
    · rename_i hmark
      split at h
      · rename_i hwidth
        obtain ⟨rfl, rfl⟩ := Prod.mk.inj (Option.some.inj h)
        simp only [Bool.and_eq_true, decide_eq_true_eq] at hwidth
        exact ⟨.inl (beq_iff_eq.mp hmark), hwidth.1, cs, rfl⟩
      · cases h
    · split at h
      · rename_i hmark
        split at h
        · rename_i hwidth
          obtain ⟨rfl, rfl⟩ := Prod.mk.inj (Option.some.inj h)
          exact ⟨.inr (beq_iff_eq.mp hmark), hwidth, cs, rfl⟩
        · cases h
      · cases h

/-- A line of marks closes a fence of as many. -/
theorem closesFence_replicate {mark : Char} {width : Nat} (hmark : isWhitespace mark = false) :
    closesFence mark width (List.replicate width mark) = true := by
  have hkept : trimEnd (List.replicate width mark) = List.replicate width mark := by
    rw [trimEnd, List.reverse_replicate]
    cases width with
    | zero => rfl
    | succ n =>
        rw [List.replicate_succ, List.dropWhile_cons_of_neg (by simp [hmark]), ← List.replicate_succ,
          List.reverse_replicate]
  rw [closesFence, hkept]
  simp

theorem isBlank_of_not_white {c : Char} (h : isWhitespace c = false) : isBlank c = false := by
  by_contra hblank
  rw [isWhitespace_of_isBlank (Bool.not_eq_false _ ▸ hblank)] at h
  cases h

section Code

variable {src : Source} {margin : List Char} {lines : List (List Char)} {mark : Char} {width : Nat} {later body : List Span}

/-- The lines of a block of code are its body and the line that closes it. -/
theorem splitFence_written (hmark : isWhitespace mark = false) (hwidth : 0 < width)
    (hbody : ∀ l ∈ lines, closesFence mark width (l.dropWhile isBlank) = false)
    (h : Written src margin later (lines ++ [List.replicate width mark])) :
    ∃ body close, later = body ++ [close] ∧ Written src margin body lines ∧
      splitFence (fun l => closesFence mark width (unindented src l)) later = (body, some close, []) := by
  obtain ⟨body, closing, rfl, htexts, hlast⟩ := List.map_eq_append_iff.mp h.texts_eq
  obtain ⟨close, rfl, hclose⟩ := List.map_eq_singleton_iff.mp hlast
  have hopen : ∀ l ∈ body, (!closesFence mark width (unindented src l)) = true := by
    intro l hl
    have hmem : src.slice l.start l.stop ∈ lines := htexts ▸ List.mem_map_of_mem hl
    rw [unindented, lineChars, hbody _ hmem]
    rfl
  have hcloses : closesFence mark width (unindented src close) = true := by
    obtain ⟨n, rfl⟩ : ∃ n, width = n + 1 := ⟨width - 1, by omega⟩
    rw [unindented, lineChars, hclose, List.replicate_succ,
      List.dropWhile_cons_of_neg (by simp [isBlank_of_not_white hmark]), ← List.replicate_succ]
    exact closesFence_replicate hmark
  have htake : (body ++ [close]).takeWhile (fun l => !closesFence mark width (unindented src l)) = body := by
    rw [List.takeWhile_append_of_pos hopen, List.takeWhile_cons_of_neg (by simp [hcloses]), List.append_nil]
  refine ⟨body, close, rfl, ?_, ?_⟩
  · exact ⟨htexts, h.breaks.left_of_append, fun l hl => h.bounds l (List.mem_append_left _ hl)⟩
  · simp only [splitFence, htake, List.drop_left, List.head?_cons, List.tail_cons]

/-- The code of a body of written lines. -/
theorem codeOf_bodyLeaf (h : Written src margin body lines) :
    codeOf (bodyLeaf src .codeText body) = String.ofList (List.intercalate ('\n' :: margin) lines) := by
  cases body with
  | nil =>
      obtain rfl : lines = [] := h.texts_eq.symm
      rfl
  | cons first body =>
      have hlast := List.getLast?_eq_some_getLast (List.cons_ne_nil first body)
      rw [bodyLeaf, List.head?_cons, hlast, ← (h.slice_eq rfl hlast).2]
      rfl

theorem bodyLeaf_ordinary : ∀ n ∈ bodyLeaf src .codeText body, Ordinary n := by
  unfold bodyLeaf
  split
  · exact List.forall_mem_singleton.mpr (.leafOf rfl (by decide))
  · exact fun n hn => absurd hn List.not_mem_nil

end Code

/-- **A block of code over written lines** holds them with the margins between them. -/
theorem codeBlock_written {env : BlockEnv} {line : Span} {later : List Span} {margin opening : List Char}
    {lines : List (List Char)} {mark : Char} {width : Nat} (hfence : codeFence? opening = some (mark, width))
    (hbody : ∀ l ∈ lines, closesFence mark width (l.dropWhile isBlank) = false)
    (h : Written env.source margin (line :: later) (opening :: (lines ++ [List.replicate width mark]))) :
    ∃ node, readBlock env line later = ⟨(node, []), none⟩ ∧
      CodeTree (String.ofList (List.intercalate ('\n' :: margin) lines)) node := by
  obtain ⟨hmark, hwidth, rest, hopening⟩ := codeFence?_head hfence
  have hplain : isWhitespace mark = false := by rcases hmark with rfl | rfl <;> rfl
  have hline : unindented env.source line = mark :: rest := by
    rw [unindented, lineChars, h.head, hopening, List.dropWhile_cons_of_neg (by simp [isBlank_of_not_white hplain])]
  obtain ⟨body, close, rfl, hwritten, hsplit⟩ := splitFence_written hplain (by omega) hbody h.tail
  let start := contentStart env.source line
  let info := trimmed env.source (start + width) line.stop
  let head := leafOf env.source .codeFence start (start + width) ::
    (if info.start < info.stop then [leafOf env.source .codeInfo info.start info.stop] else [])
  let foot := leafOf env.source .codeFence (contentStart env.source close)
    (contentStart env.source close + (trimEnd (unindented env.source close)).length)
  let nodes := head ++ bodyLeaf env.source .codeText body ++ [foot]
  have hhead : (∀ n ∈ head, Ordinary n) ∧ head.find? (fun n => n.kind == .markup .codeText) = none := by
    simp only [head]
    split
    · exact ⟨List.forall_mem_cons.mpr ⟨.leafOf rfl (by decide), List.forall_mem_singleton.mpr (.leafOf rfl (by decide))⟩,
        rfl⟩
    · exact ⟨List.forall_mem_singleton.mpr (.leafOf rfl (by decide)), rfl⟩
  have hread : codeBlock env line (body ++ [close]) =
      some ⟨(enclosing env.source .fencedCode start nodes, []), none⟩ := by
    have hfence' : codeFence? (unindented env.source line) = some (mark, width) := by rw [hline, ← hopening, hfence]
    simp only [codeBlock, hfence', Option.bind_eq_bind, Option.bind_some, hsplit]
    rfl
  refine ⟨_, readBlock_rule [commentBlock, scriptBlock, attributeBlock, componentBlock, mathBlock]
    [headingBlock, quoteBlock, listBlock, tableBlock] rfl (declined hline ?_) hread, ?_⟩
  · rcases hmark with rfl | rfl <;> decide
  · refine .block (fill_ordinary (fun n hn => ?_) _ _) ?_
    · rcases List.mem_append.mp hn with hn | hn
      · rcases List.mem_append.mp hn with hn | hn
        · exact hhead.1 n hn
        · exact bodyLeaf_ordinary n hn
      · rw [List.mem_singleton.mp hn]
        exact .leafOf rfl (by decide)
    · rw [codeOf_fill, ← codeOf_bodyLeaf hwritten]
      have hfoot : [foot].find? (fun n => n.kind == .markup .codeText) = none := rfl
      rw [codeOf, codeOf, List.find?_append, List.find?_append, hhead.2, hfoot, Option.none_or, Option.or_none]

/-! ## Quotations and items around it -/

/-- Lines that a block may be written in: the first starts with a character that is no white space and opens no task
box, and the last is not blank. -/
structure Solid (texts : List (List Char)) : Prop where
  /-- The first line. -/
  first : ∃ c cs others, texts = (c :: cs) :: others ∧ isWhitespace c = false ∧ c ≠ '['
  /-- The last line. -/
  last : ∀ t ∈ texts.getLast?, ∃ c ∈ t, isWhitespace c = false

/-- Markers are no white space. -/
theorem isWhitespace_marker {c : Char} (h : c = '-' ∨ c = '*' ∨ c = '+' ∨ isDigit c = true) :
    isWhitespace c = false ∧ c ∉ ['[', '/', '%', '|', '@', '$', '\x60', '~', '#', '>'] := by
  rcases h with rfl | rfl | rfl | h
  · decide
  · decide
  · decide
  · have hbounds : 48 ≤ c.toNat ∧ c.toNat ≤ 57 := by
      simp only [isDigit, Bool.and_eq_true, decide_eq_true_eq] at h
      exact h
    refine ⟨?_, fun hmem => ?_⟩
    · simp only [isWhitespace, Bool.or_eq_false_iff, Bool.and_eq_false_iff, decide_eq_false_iff_not, beq_eq_false_iff_ne]
      omega
    · simp only [List.mem_cons, List.not_mem_nil, or_false] at hmem
      rcases hmem with rfl | rfl | rfl | rfl | rfl | rfl | rfl | rfl | rfl | rfl <;> revert hbounds <;> decide

theorem Solid.around {texts : List (List Char)} (h : Solid texts) {c : Container} (hc : c.Proper) :
    Solid (c.around texts) := by
  obtain ⟨d, ds, others, rfl, hplain, -⟩ := h.first
  refine ⟨?_, fun t ht => ?_⟩
  · cases c with
    | quote => exact ⟨'>', _, _, rfl, by decide, by decide⟩
    | item marker blanks =>
        obtain ⟨m, ms, rfl, hm⟩ := hc.1.head
        obtain ⟨hwhite, hother⟩ := isWhitespace_marker hm
        exact ⟨m, _, _, rfl, hwhite, fun heq => hother (heq ▸ List.mem_cons_self)⟩
  · -- the last line inside is the end of the last line outside
    have hlast : ∃ u ∈ ((d :: ds) :: others).getLast?, ∃ front, t = front ++ u := by
      cases others with
      | nil =>
          obtain rfl := Option.some.inj ht
          exact ⟨d :: ds, rfl, c.opening, rfl⟩
      | cons next others =>
          rw [Container.around, List.map_cons, List.getLast?_cons_cons, ← List.map_cons, List.getLast?_map] at ht
          obtain ⟨u, hu, rfl⟩ := Option.map_eq_some_iff.mp ht
          exact ⟨u, by rwa [List.getLast?_cons_cons], c.margin, rfl⟩
    obtain ⟨u, hu, front, rfl⟩ := hlast
    obtain ⟨e, he, hwhite⟩ := h.last u hu
    exact ⟨e, List.mem_append_right _ he, hwhite⟩

theorem Solid.enclosed {containers : List Container} {texts : List (List Char)} (h : Solid texts)
    (hproper : ∀ c ∈ containers, c.Proper) : Solid (enclosed containers texts) := by
  induction containers with
  | nil => exact h
  | cons c containers ih =>
      exact (ih fun d hd => hproper d (List.mem_cons_of_mem c hd)).around (hproper c List.mem_cons_self)

section Containers

variable {env : BlockEnv} {line : Span} {later : List Span} {margin first : List Char} {others : List (List Char)}
  {code : String}

/-- A line that starts with a character that is no white space. -/
theorem isBlankLine_head {src : Source} {c : Char} {cs : List Char} (h : src.slice line.start line.stop = c :: cs)
    (hc : isWhitespace c = false) : isBlankLine src line = false := by
  simp [isBlankLine, lineChars, isAllWhite, h, hc]

/-- **A quotation of written lines** reads the lines without its marks. -/
theorem quoteBlock_written (h : Written env.source margin (line :: later) (Container.quote.around (first :: others)))
    (hnested : ∀ lines, Written env.source (margin ++ Container.quote.margin) lines (first :: others) →
      ∃ node, env.nested lines = ⟨[node], none⟩ ∧ CodeTree code node) :
    ∃ node, readBlock env line later = ⟨(node, []), none⟩ ∧ CodeTree code node := by
  have htexts : ∀ l ∈ line :: later, ∃ text, env.source.slice l.start l.stop = ['>', ' '] ++ text := by
    intro l hl
    rcases List.mem_cons.mp (h.mem hl) with heq | hmem
    · exact ⟨_, heq⟩
    · obtain ⟨text, -, htext⟩ := List.mem_map.mp hmem
      exact ⟨text, htext.symm⟩
  have hquoted : ∀ l ∈ line :: later, ((unindented env.source l).head? == some '>') = true := by
    intro l hl
    obtain ⟨text, htext⟩ := htexts l hl
    rw [unindented, lineChars, htext]
    rfl
  have hlines : (line :: later).map (unquote env.source) =
      ⟨line.start + 2, line.stop⟩ :: later.map fun l => ⟨l.start + 2, l.stop⟩ := by
    show _ = (line :: later).map fun l => (⟨l.start + 2, l.stop⟩ : Span)
    refine List.map_congr_left fun l hl => ?_
    obtain ⟨text, htext⟩ := htexts l hl
    exact unquote_eq htext
  obtain ⟨node, hnode, htree⟩ := hnested _ h.inside
  obtain ⟨text, htext⟩ := htexts line List.mem_cons_self
  have hline : unindented env.source line = '>' :: ' ' :: text := by
    rw [unindented, lineChars, htext]
    rfl
  have htake := List.takeWhile_eq_self_iff.mpr hquoted
  have hdrop := List.dropWhile_eq_nil_iff.mpr hquoted
  have hread : ∃ start stop, quoteBlock env line later =
      some ⟨(filled env.source .blockquote start stop [node], []), none⟩ := by
    unfold quoteBlock
    dsimp only
    rw [if_neg (by simp [hline]), htake, hdrop, hlines]
    have hnode' : env.nested (⟨line.start + 2, line.stop⟩ :: later.map fun l => ⟨l.start + 2, l.stop⟩) =
        ⟨[node], none⟩ := hnode
    rw [hnode']
    exact ⟨_, _, rfl⟩
  obtain ⟨start, stop, hread⟩ := hread
  refine ⟨_, readBlock_rule [commentBlock, scriptBlock, attributeBlock, componentBlock, mathBlock, codeBlock,
    headingBlock] [listBlock, tableBlock] rfl ?_ hread, ?_⟩
  · exact List.forall_mem_append.mpr ⟨declined hline (by decide), List.forall_mem_cons.mpr
      ⟨codeBlock_declined hline (by decide), List.forall_mem_singleton.mpr (headingBlock_declined hline (by decide))⟩⟩
  · exact htree.filled [] [] rfl (by decide) (fun c hc => absurd hc List.not_mem_nil)
      (fun c hc => absurd hc List.not_mem_nil) _ _

/-- What opens no bracket is no task box. -/
theorem hasTaskBox_head {c : Char} (hc : c ≠ '[') (cs : List Char) : hasTaskBox (c :: cs) = false := by
  have hno : ∀ e es, ((c :: cs).take 3 == '[' :: e :: es) = false := fun e es =>
    beq_false_of_ne fun heq => hc (List.cons.inj heq).1
  simp only [hasTaskBox, hno, Bool.or_false, Bool.false_and]

/-- The first line of an item starts with its marker.  Blanks stand behind it, and then what the item holds. -/
theorem itemFront_written {src : Source} {marker : List Char} {blanks : Nat} {c : Char} {cs : List Char}
    (hmarker : IsItemMarker marker) (hc : isWhitespace c = false) (hbounds : line.start ≤ line.stop)
    (h : src.slice line.start line.stop = marker ++ (List.replicate blanks ' ' ++ c :: cs)) :
    contentStart src line = line.start ∧
      src.slice (line.start + marker.length) line.stop = List.replicate blanks ' ' ++ c :: cs ∧
      runLength isBlank (List.replicate blanks ' ' ++ c :: cs) = blanks ∧
      line.start + marker.length + blanks < line.stop ∧
      src.slice (line.start + marker.length + blanks) line.stop = c :: cs := by
  obtain ⟨d, ds, hds, hd⟩ := hmarker.head
  have hslice : src.slice line.start line.stop = d :: (ds ++ (List.replicate blanks ' ' ++ c :: cs)) := by
    rw [h, hds, List.cons_append]
  have hafter : src.slice (line.start + marker.length) line.stop = List.replicate blanks ' ' ++ c :: cs := by
    rw [← Source.slice_drop, h, List.drop_left]
  refine ⟨contentStart_eq hslice (isBlank_of_not_white (isWhitespace_marker hd).1), hafter, ?_, ?_, ?_⟩
  · rw [runLength, List.takeWhile_append_of_pos (fun e he => List.eq_of_mem_replicate he ▸ rfl),
      List.takeWhile_cons_of_neg (by simp [isBlank_of_not_white hc]), List.append_nil, List.length_replicate]
  · have hwithin := Source.start_le_of_slice (show _ = (marker ++ List.replicate blanks ' ' ++ [c]) ++ cs by
      rw [h]; simp) hbounds
    simp only [List.length_append, List.length_replicate, List.length_singleton] at hwithin
    omega
  · rw [← Source.slice_drop, hafter]
    exact List.drop_left' List.length_replicate

/-- The other lines of an item are all indented to its column. -/
theorem itemLines_written {src : Source} {column : Nat} (hlast : ∀ t ∈ others.getLast?, ∃ c ∈ t, isWhitespace c = false)
    (h : Written src margin later (others.map (List.replicate column ' ' ++ ·))) :
    itemLines src column true later = (later.map fun l => ⟨l.start + column, l.stop⟩, []) := by
  have htexts : ∀ l ∈ later, ∃ text, src.slice l.start l.stop = List.replicate column ' ' ++ text := by
    intro l hl
    obtain ⟨text, -, htext⟩ := List.mem_map.mp (h.mem hl)
    exact ⟨text, htext.symm⟩
  have hends : ∀ l ∈ later.getLast?, isBlankLine src l = false := by
    intro l hl
    have hmap := congrArg List.getLast? h.texts_eq
    rw [List.getLast?_map, List.getLast?_map, hl, Option.map_some] at hmap
    obtain ⟨text, htext, hslice⟩ := Option.map_eq_some_iff.mp hmap.symm
    obtain ⟨e, he, hwhite⟩ := hlast text htext
    rw [isBlankLine, lineChars, ← hslice, isAllWhite, List.all_eq_false]
    exact ⟨e, List.mem_append_right _ he, by simp [hwhite]⟩
  rw [itemLines_eq (fun l hl => le_indentOf (htexts l hl).choose_spec) hends]
  refine congrArg (·, []) (List.map_congr_left fun l hl => ?_)
  obtain ⟨text, htext⟩ := htexts l hl
  exact strip_eq htext

/-- **An item over written lines**, read from its marker on. -/
theorem listItem_written {marker : List Char} {blanks : Nat} {m : ListMarker} {c : Char} {cs : List Char}
    (hwidth : m.width = marker.length) (hmarker : IsItemMarker marker) (hblanks : 1 ≤ blanks ∧ blanks ≤ 4)
    (hsolid : Solid ((c :: cs) :: others)) (hc : isWhitespace c = false ∧ c ≠ '[')
    (h : Written env.source margin (line :: later) ((Container.item marker blanks).around ((c :: cs) :: others)))
    (hnested : ∀ lines, Written env.source (margin ++ (Container.item marker blanks).margin) lines
      ((c :: cs) :: others) → ∃ node, env.nested lines = ⟨[node], none⟩ ∧ CodeTree code node) :
    ∃ node, listItem env line m later = ⟨(node, []), none⟩ ∧ CodeTree code node := by
  have hhead : env.source.slice line.start line.stop = marker ++ (List.replicate blanks ' ' ++ c :: cs) := by
    rw [h.head]
    exact List.append_assoc _ _ _
  obtain ⟨hstart, hafter, hrun, hroom, hcontent⟩ :=
    itemFront_written hmarker hc.1 (h.bounds line List.mem_cons_self).1 hhead
  rw [← hwidth] at hafter hroom hcontent
  have hindent : indentOf env.source line = 0 := by
    rw [contentStart] at hstart
    omega
  have hend : (line.start + m.width + blanks == line.stop) = false := beq_false_of_ne (by omega)
  have hfew : (decide (4 < blanks) || false) = false := by simp [hblanks.2]
  have hmax : max blanks 1 = blanks := Nat.max_eq_left hblanks.1
  have hmin : min (line.start + m.width + blanks) line.stop = line.start + m.width + blanks :=
    Nat.min_eq_left (Nat.le_of_lt hroom)
  have hlast : ∀ t ∈ others.getLast?, ∃ e ∈ t, isWhitespace e = false := by
    intro t ht
    refine hsolid.last t ?_
    cases others with
    | nil => cases ht
    | cons next others => rwa [List.getLast?_cons_cons]
  have hlater : itemLines env.source (m.width + blanks) true later =
      (later.map fun l => ⟨l.start + (m.width + blanks), l.stop⟩, []) :=
    hwidth ▸ itemLines_written hlast h.tail
  have hopening : (Container.item marker blanks).opening.length = m.width + blanks := by
    simp [Container.opening, hwidth]
  have hmargin : (Container.item marker blanks).margin.length = m.width + blanks := by
    simp [Container.margin, hwidth]
  have hinside := h.inside
  rw [hopening, hmargin, ← Nat.add_assoc] at hinside
  obtain ⟨node, hnode, htree⟩ := hnested _ hinside
  have hread : ∃ start stop, listItem env line m later = ⟨(filled env.source .listItem start stop
      ([leafOf env.source .listMarker line.start (line.start + m.width)] ++ node :: []), []), none⟩ := by
    unfold listItem
    simp only [hstart, hafter, hrun, hend, hfew, hindent, hmax, hmin, hcontent, hasTaskBox_head hc.2, Nat.zero_add,
      Bool.false_eq_true, if_false]
    rw [hlater, hnode]
    exact ⟨_, _, rfl⟩
  obtain ⟨start, stop, hread⟩ := hread
  exact ⟨_, hread, htree.filled [_] [] rfl (by decide) (List.forall_mem_singleton.mpr (.leafOf rfl (by decide)))
    (fun c hc => absurd hc List.not_mem_nil) _ _⟩

/-- **An item of written lines** reads the lines without its indentation. -/
theorem listBlock_written {marker : List Char} {blanks : Nat} (hmarker : IsItemMarker marker)
    (hblanks : 1 ≤ blanks ∧ blanks ≤ 4) (hsolid : Solid (first :: others))
    (h : Written env.source margin (line :: later) ((Container.item marker blanks).around (first :: others)))
    (hnested : ∀ lines, Written env.source (margin ++ (Container.item marker blanks).margin) lines (first :: others) →
      ∃ node, env.nested lines = ⟨[node], none⟩ ∧ CodeTree code node) :
    ∃ node, readBlock env line later = ⟨(node, []), none⟩ ∧ CodeTree code node := by
  obtain ⟨c, cs, _, heq, hc⟩ := hsolid.first
  obtain ⟨rfl, rfl⟩ := List.cons.inj heq
  obtain ⟨n, rfl⟩ : ∃ n, blanks = n + 1 := ⟨blanks - 1, by omega⟩
  obtain ⟨m, hm, hwidth⟩ := hmarker.read? (List.replicate n ' ' ++ c :: cs)
  obtain ⟨d, ds, hds, hd⟩ := hmarker.head
  obtain ⟨hwhite, hother⟩ := isWhitespace_marker hd
  have hline : unindented env.source line = marker ++ ' ' :: (List.replicate n ' ' ++ c :: cs) := by
    have hhead : env.source.slice line.start line.stop = marker ++ ' ' :: (List.replicate n ' ' ++ c :: cs) := by
      rw [h.head]
      simp [Container.opening, List.replicate_succ]
    rw [unindented, lineChars, hhead, hds, List.cons_append,
      List.dropWhile_cons_of_neg (by simp [isBlank_of_not_white hwhite])]
  have hmark := hline
  rw [hds, List.cons_append] at hmark
  obtain ⟨item, hitem, htree⟩ := listItem_written hwidth hmarker hblanks hsolid hc h hnested
  have hread : listBlock env line later =
      some ⟨(enclosing env.source m.listKind item.start ([] ++ item :: []), []), none⟩ := by
    simp only [listBlock, hline, hm, Option.bind_eq_bind, Option.bind_some, listItems, hitem]
    rfl
  simp only [List.mem_cons, List.not_mem_nil, or_false, not_or] at hother
  refine ⟨_, readBlock_rule [commentBlock, scriptBlock, attributeBlock, componentBlock, mathBlock, codeBlock,
    headingBlock, quoteBlock] [tableBlock] rfl ?_ hread, ?_⟩
  · refine List.forall_mem_append.mpr ⟨declined hmark (by simp [hother]), List.forall_mem_cons.mpr
      ⟨codeBlock_declined hmark (by simp [hother]), List.forall_mem_cons.mpr
        ⟨headingBlock_declined hmark (by simp [hother]), List.forall_mem_singleton.mpr
          (quoteBlock_declined hmark (by simp [hother]))⟩⟩⟩
  · have hkind : choice? (.markup m.listKind) = none ∧ m.listKind ≠ .fencedCode := by
      unfold ListMarker.listKind
      split <;> exact ⟨rfl, by decide⟩
    exact htree.filled [] [] hkind.1 hkind.2 (fun c hc => absurd hc List.not_mem_nil)
      (fun c hc => absurd hc List.not_mem_nil) _ _

end Containers

/-! ## Blocks of code inside any number of blocks -/

section Enclosed

variable {src : Source} {opening : List Char} {lines : List (List Char)} {mark : Char} {width : Nat}

/-- The lines of a block of code, its fences included. -/
def fencedLines (opening : List Char) (lines : List (List Char)) (mark : Char) (width : Nat) : List (List Char) :=
  opening :: (lines ++ [List.replicate width mark])

/-- The lines of a block of code may be written inside others. -/
theorem fencedLines_solid (lines : List (List Char)) (hfence : codeFence? opening = some (mark, width)) :
    Solid (fencedLines opening lines mark width) := by
  obtain ⟨hmark, hwidth, rest, rfl⟩ := codeFence?_head hfence
  have hplain : isWhitespace mark = false ∧ mark ≠ '[' := by rcases hmark with rfl | rfl <;> decide
  refine ⟨⟨mark, rest, _, rfl, hplain⟩, fun t ht => ?_⟩
  rw [fencedLines, ← List.cons_append, List.getLast?_concat] at ht
  obtain rfl := Option.some.inj ht
  exact ⟨mark, List.mem_replicate.mpr ⟨by omega, rfl⟩, hplain.1⟩

/-- A block that starts on the first of some lines and ends on the last. -/
theorem blockNodes_single {levels : Nat} {line : Span} {later : List Span} {node : Node}
    (hblank : isBlankLine src line = false)
    (hread : readBlock ⟨src, inlineNodes src (levels - 1), blockNodes src levels⟩ line later = ⟨(node, []), none⟩) :
    blockNodes src (levels + 1) (line :: later) = ⟨[node], none⟩ := by
  rw [blockNodes, List.length_cons, readBlocks, if_neg (by simp [hblank]), hread]
  cases later.length <;> rfl

/-- **A block of code inside others is read as one**, and its code holds the margins of all of them. -/
theorem blockNodes_enclosed (hfence : codeFence? opening = some (mark, width))
    (hbody : ∀ l ∈ lines, closesFence mark width (l.dropWhile isBlank) = false) {containers : List Container}
    (hproper : ∀ c ∈ containers, c.Proper) {levels : Nat} (hlevels : containers.length < levels)
    {margin : List Char} {spans : List Span}
    (h : Written src margin spans (enclosed containers (fencedLines opening lines mark width))) :
    ∃ node, blockNodes src levels spans = ⟨[node], none⟩ ∧
      CodeTree (String.ofList (List.intercalate ('\n' :: (margin ++ margins containers)) lines)) node := by
  obtain ⟨levels, rfl⟩ : ∃ n, levels = n + 1 := ⟨levels - 1, by omega⟩
  have hsolid := (fencedLines_solid lines hfence).enclosed hproper
  obtain ⟨c, cs, others, htexts, hplain, -⟩ := hsolid.first
  obtain ⟨line, later, rfl⟩ := (htexts ▸ h).exists_cons
  have hblank : isBlankLine src line = false := isBlankLine_head (htexts ▸ h).head hplain
  let env : BlockEnv := ⟨src, inlineNodes src (levels - 1), blockNodes src levels⟩
  have hread : ∃ node, readBlock env line later = ⟨(node, []), none⟩ ∧
      CodeTree (String.ofList (List.intercalate ('\n' :: (margin ++ margins containers)) lines)) node := by
    cases containers with
    | nil =>
        rw [margins, List.flatMap_nil, List.append_nil]
        exact codeBlock_written hfence hbody h
    | cons container containers =>
        have hinner : ∀ c ∈ containers, c.Proper := fun d hd => hproper d (List.mem_cons_of_mem container hd)
        have hlength : containers.length < levels := Nat.lt_of_succ_lt_succ hlevels
        have hnested : ∀ spans, Written src (margin ++ container.margin) spans
            (enclosed containers (fencedLines opening lines mark width)) → ∃ node,
              blockNodes src levels spans = ⟨[node], none⟩ ∧ CodeTree (String.ofList (List.intercalate
                ('\n' :: (margin ++ margins (container :: containers))) lines)) node := by
          intro spans hspans
          have hdeeper := blockNodes_enclosed hfence hbody hinner hlength hspans
          rwa [List.append_assoc] at hdeeper
        have hinside := (fencedLines_solid lines hfence).enclosed hinner
        obtain ⟨first, rest, hfirst⟩ : ∃ first rest,
            enclosed containers (fencedLines opening lines mark width) = first :: rest := by
          obtain ⟨d, ds, rest, hrest, -⟩ := hinside.first
          exact ⟨_, _, hrest⟩
        have hwritten : Written src margin (line :: later) (container.around (first :: rest)) := hfirst ▸ h
        rw [hfirst] at hnested hinside
        cases container with
        | quote => exact quoteBlock_written hwritten hnested
        | item marker blanks =>
            obtain ⟨hmarker, hblanks⟩ := hproper _ List.mem_cons_self
            exact listBlock_written hmarker hblanks hinside hwritten hnested
  obtain ⟨node, hnode, htree⟩ := hread
  exact ⟨node, blockNodes_single hblank hnode, htree⟩
termination_by containers.length

/-- No line end is written before a line that has none. -/
theorem enclosed_clean {containers : List Container} (hproper : ∀ c ∈ containers, c.Proper)
    {block : List (List Char)} (h : ∀ t ∈ block, ∀ c ∈ t, isNewline c = false) :
    ∀ t ∈ enclosed containers block, ∀ c ∈ t, isNewline c = false := by
  have hblanks : ∀ n, ∀ c ∈ List.replicate n ' ', isNewline c = false := by
    intro n c hc
    rw [List.eq_of_mem_replicate hc]
    rfl
  induction containers with
  | nil => exact h
  | cons container containers ih =>
      have hinside := ih fun d hd => hproper d (List.mem_cons_of_mem container hd)
      have hmargin : (∀ c ∈ container.opening, isNewline c = false) ∧ ∀ c ∈ container.margin, isNewline c = false := by
        cases container with
        | quote => exact ⟨List.forall_mem_cons.mpr ⟨rfl, hblanks 1⟩, List.forall_mem_cons.mpr ⟨rfl, hblanks 1⟩⟩
        | item marker blanks =>
            obtain ⟨hmarker, -⟩ := hproper _ List.mem_cons_self
            refine ⟨List.forall_mem_append.mpr ⟨?_, hblanks _⟩, hblanks _⟩
            rcases hmarker with rfl | rfl | rfl | ⟨digits, d, rfl, -, -, hdigits, hd⟩
            · exact List.forall_mem_singleton.mpr rfl
            · exact List.forall_mem_singleton.mpr rfl
            · exact List.forall_mem_singleton.mpr rfl
            · refine List.forall_mem_append.mpr ⟨fun c hc => ?_, List.forall_mem_singleton.mpr ?_⟩
              · have hwhite := (isWhitespace_marker (.inr (.inr (.inr (hdigits c hc))))).1
                by_contra hnewline
                rw [isWhitespace_of_isNewline (Bool.not_eq_false _ ▸ hnewline)] at hwhite
                cases hwhite
              · rcases hd with rfl | rfl <;> rfl
      intro t ht
      show ∀ c ∈ t, isNewline c = false
      have hcases : ∃ front u, t = front ++ u ∧ u ∈ enclosed containers block ∧ ∀ c ∈ front, isNewline c = false := by
        change t ∈ container.around (enclosed containers block) at ht
        cases hblock : enclosed containers block with
        | nil =>
            rw [hblock] at ht
            exact absurd ht List.not_mem_nil
        | cons first rest =>
            rw [hblock] at ht
            rcases List.mem_cons.mp ht with rfl | ht
            · exact ⟨_, first, rfl, List.mem_cons_self, hmargin.1⟩
            · obtain ⟨u, hu, rfl⟩ := List.mem_map.mp ht
              exact ⟨_, u, rfl, List.mem_cons_of_mem first hu, hmargin.2⟩
      obtain ⟨front, u, rfl, hu, hfront⟩ := hcases
      exact List.forall_mem_append.mpr ⟨hfront, hinside u hu⟩

/-- Only without blocks around, or with one line, does it make no difference whether the margins are left out. -/
theorem intercalate_margins {containers : List Container} (hproper : ∀ c ∈ containers, c.Proper) :
    List.intercalate ('\n' :: margins containers) lines = List.intercalate ['\n'] lines ↔
      containers = [] ∨ lines.length ≤ 1 := by
  have hlength : ∀ (separator : List Char) (first : List Char) (rest : List (List Char)),
      (separator.intercalate (first :: rest)).length =
        (first :: rest).flatten.length + rest.length * separator.length := by
    intro separator first rest
    induction rest generalizing first with
    | nil => simp [List.intercalate_singleton]
    | cons next rest ih =>
        rw [List.intercalate_cons_cons, List.length_append, List.length_append, ih]
        simp only [List.flatten_cons, List.length_append, List.length_cons, Nat.succ_mul]
        omega
  constructor
  · intro heq
    cases containers with
    | nil => exact .inl rfl
    | cons container containers =>
        refine .inr ?_
        have hmargin : 0 < container.margin.length := by
          cases container with
          | quote => exact Nat.succ_pos _
          | item marker blanks =>
              have hblanks := (hproper _ List.mem_cons_self).2.1
              rw [Container.margin, List.length_replicate]
              omega
        cases lines with
        | nil => exact Nat.zero_le _
        | cons first rest =>
            have hsame := congrArg List.length heq
            rw [hlength, hlength, List.length_cons, List.length_singleton, margins, List.flatMap_cons,
              List.length_append] at hsame
            have hzero : rest.length * (container.margin.length + (containers.flatMap Container.margin).length) = 0 := by
              rw [Nat.mul_succ] at hsame
              omega
            rcases Nat.mul_eq_zero.mp hzero with hrest | hmargins
            · rw [List.length_cons, hrest]
            · omega
  · rintro (rfl | hone)
    · rfl
    · cases lines with
      | nil => rfl
      | cons first rest =>
          obtain rfl : rest = [] := List.length_eq_zero_iff.mp (Nat.le_zero.mp (Nat.le_of_succ_le_succ hone))
          rw [List.intercalate_singleton, List.intercalate_singleton]

end Enclosed

end ComponentMarkup.Markup

namespace ComponentMarkup.Document

open ComponentMarkup.Text ComponentMarkup.Tree ComponentMarkup.Markup

/-- **The code of a block that is written inside others**: its lines with the margins of all blocks around between
them.  These are the lines that were written only if no block is around, or there is at most one line. -/
theorem parse_enclosed {containers : List Container} (hproper : ∀ c ∈ containers, c.Proper)
    (hdepth : containers.length ≤ maxDepth) {opening : List Char} {mark : Char} {width : Nat}
    (hfence : codeFence? opening = some (mark, width)) (hopening : ∀ c ∈ opening, isNewline c = false)
    {lines : List (List Char)} (hlines : ∀ l ∈ lines, ∀ c ∈ l, isNewline c = false)
    (hbody : ∀ l ∈ lines, closesFence mark width (l.dropWhile isBlank) = false) :
    ∃ root code, parse (String.ofList (List.intercalate ['\n']
        (enclosed containers (fencedLines opening lines mark width)))) = .ok root ∧
      (∃ n, Node.Within root n ∧ n.isMarkup .fencedCode = true) ∧
      (∀ n, Node.Within root n → n.isMarkup .fencedCode = true →
        ∃ language, view? n = some (.fencedCode language code)) ∧
      code = String.ofList (List.intercalate ('\n' :: margins containers) lines) ∧
      (code = String.ofList (List.intercalate ['\n'] lines) ↔ containers = [] ∨ lines.length ≤ 1) := by
  let text := String.ofList (List.intercalate ['\n'] (enclosed containers (fencedLines opening lines mark width)))
  let src := Source.ofString text
  have hclean : ∀ t ∈ enclosed containers (fencedLines opening lines mark width), ∀ c ∈ t, isNewline c = false := by
    refine enclosed_clean hproper (List.forall_mem_cons.mpr ⟨hopening, List.forall_mem_append.mpr ⟨hlines,
      List.forall_mem_singleton.mpr fun c hc => ?_⟩⟩)
    rw [List.eq_of_mem_replicate hc]
    obtain ⟨hmark, -⟩ := codeFence?_head hfence
    rcases hmark with rfl | rfl <;> rfl
  obtain ⟨first, rest, hfirst⟩ : ∃ first rest,
      enclosed containers (fencedLines opening lines mark width) = first :: rest := by
    obtain ⟨d, ds, rest, hrest, -⟩ := ((fencedLines_solid lines hfence).enclosed hproper).first
    exact ⟨_, _, hrest⟩
  have hwritten : Written src [] (lineSpans src src.whole)
      (enclosed containers (fencedLines opening lines mark width)) := by
    rw [hfirst] at hclean ⊢
    exact lineSpans_written hclean (by rw [← hfirst]; exact String.toList_ofList)
  obtain ⟨node, hnode, htree⟩ := blockNodes_enclosed hfence hbody hproper (Nat.lt_succ_of_le hdepth) hwritten
  rw [List.nil_append] at htree
  -- the document is the block with the gaps around it filled
  obtain ⟨before, after, hfill, hbefore, hafter⟩ := fill_around src [] [] node
    (fun c hc => absurd hc List.not_mem_nil) (fun c hc => absurd hc List.not_mem_nil) src.whole.start src.whole.stop
  have hroot : ∃ root, readDocument src src.whole = ⟨root, none⟩ ∧
      CodeTree (String.ofList (List.intercalate ('\n' :: margins containers) lines)) root := by
    refine ⟨.branch (.markup .document) (before ++ node :: after), ?_, ?_⟩
    · have hne : (before ++ node :: after).isEmpty = false := by simp
      have hread : readDocument src src.whole = ⟨.branchAt (.markup .document) src.whole.start
          (fill src src.whole.start src.whole.stop [node]), none⟩ := by
        rw [readDocument, hnode]
        rfl
      rw [hread, show [node] = [] ++ node :: [] from rfl, hfill, Node.branchAt, hne]
      rfl
    · exact .around rfl (by decide) hbefore hafter htree
  obtain ⟨root, hread, hcode⟩ := hroot
  have hparse : parse text = .ok (root.inBytes src.byteOffsets) := by
    have hgraft : graftRoot .standard src (readDocument src src.whole) = ⟨root, none⟩ := by
      rw [graftRoot, hread]
      exact hcode.graft_eq _
    have hsource : parseSource .standard src = .ok root := by
      unfold parseSource
      simp only [show GrammarSet.standard.get? "markup" = some .markup from rfl]
      rw [show Grammar.markup.parse src src.whole "document" = readDocument src src.whole from rfl, hgraft]
    rw [parse, parseWith]
    simp only [src] at hsource ⊢
    rw [hsource]
    rfl
  have hbytes := hcode.mapPlaces (byteAt src.byteOffsets)
  refine ⟨_, _, hparse, hbytes.exists_block, fun n hn hkind => hbytes.view hn hkind, rfl, ?_⟩
  rw [String.ofList_inj]
  exact intercalate_margins hproper

/-- Two lines of code in a quotation. -/
theorem parse_enclosed_quotation : ∃ root code, parse "> ```\n> a\n> b\n> ```" = .ok root ∧
    (∃ n, Node.Within root n ∧ n.isMarkup .fencedCode = true) ∧
    (∀ n, Node.Within root n → n.isMarkup .fencedCode = true →
      ∃ language, view? n = some (.fencedCode language code)) ∧
    code = "a\n> b" ∧ (code = "a\nb" ↔ [Container.quote] = [] ∨ [['a'], ['b']].length ≤ 1) := by
  have hfence : codeFence? ['\x60', '\x60', '\x60'] = some ('\x60', 3) := rfl
  have hopening : ∀ c ∈ ['\x60', '\x60', '\x60'], isNewline c = false :=
    List.forall_mem_cons.mpr ⟨rfl, List.forall_mem_cons.mpr ⟨rfl, List.forall_mem_singleton.mpr rfl⟩⟩
  have hlines : ∀ l ∈ [['a'], ['b']], ∀ c ∈ l, isNewline c = false := List.forall_mem_cons.mpr
    ⟨List.forall_mem_singleton.mpr rfl, List.forall_mem_singleton.mpr (List.forall_mem_singleton.mpr rfl)⟩
  have hbody : ∀ l ∈ [['a'], ['b']], closesFence '\x60' 3 (l.dropWhile isBlank) = false :=
    List.forall_mem_cons.mpr ⟨rfl, List.forall_mem_singleton.mpr rfl⟩
  have h := parse_enclosed (show ∀ c ∈ [Container.quote], c.Proper from List.forall_mem_singleton.mpr trivial)
    (show [Container.quote].length ≤ maxDepth by decide) hfence hopening hlines hbody
  have htext : String.ofList (List.intercalate ['\n'] (enclosed [.quote]
      (fencedLines ['\x60', '\x60', '\x60'] [['a'], ['b']] '\x60' 3))) = "> ```\n> a\n> b\n> ```" := by decide +kernel
  have hcode : String.ofList (List.intercalate ('\n' :: margins [.quote]) [['a'], ['b']]) = "a\n> b" := by decide +kernel
  have hjoined : String.ofList (List.intercalate ['\n'] [['a'], ['b']]) = "a\nb" := by decide
  rwa [htext, hcode, hjoined] at h

/-- The codes of the blocks of code in a tree. -/
def codes (root : Node) : List String :=
  (root.outline 0).filterMap fun found =>
    match view? found.2 with
    | some (.fencedCode _ code) => some code
    | _ => none

/-- The same lines on their own and in a quotation. -/
theorem codes_quotation : (parse "```\na\nb\n```").map codes = .ok ["a\nb"] ∧
    (parse "> ```\n> a\n> b\n> ```").map codes = .ok ["a\n> b"] := by
  decide +kernel

end ComponentMarkup.Document
