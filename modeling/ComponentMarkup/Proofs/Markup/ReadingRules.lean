import ComponentMarkup.Proofs.Markup.Characterwise
import ComponentMarkup.Proofs.Markup.Readings

/-!
# The rules make what they see

Every rule that claims a place makes nodes and delimiters that are as `Made` and `Opener.Stands` tell, and leads to a
place that is fresh: an introducer there is not escaped by what has been read.

* `Here` — what is known at a place when rules are tried;
* `Gives` — what a rule that claims the place gives;
* `fullRule_gives`, `templateRule_gives`, `plainText_gives` — each rule does.
-/

namespace ComponentMarkup.Markup

open ComponentMarkup.Text ComponentMarkup.Tree

variable {deep : Prop} {r : Reading} {s s' : State} {segment : Span} {mode : Mode} {c d : Char} {cs : List Char}
  {p : Nat}

@[simp] theorem Reading.env_source (r : Reading) : r.env.source = r.source := rfl

@[simp] theorem Reading.env_mode (r : Reading) : r.env.mode = r.mode := rfl

/-! ## Fresh places -/

namespace Fresh

/-- The end of a line is fresh. -/
theorem of_end {src : Source} (h : segment.stop ≤ p) : Fresh src mode segment p :=
  fun _ hp => absurd hp (Nat.not_lt.mpr h)

/-- A place behind another character than a backslash is fresh. -/
theorem of_last {src : Source} (h : src.chars[p]? ≠ some '\\') : Fresh src mode segment (p + 1) :=
  fun _ _ _ _ => (slashes_other h : slashes src segment.start (p + 1) = 0) ▸ ⟨0, rfl⟩

/-- A place with an ordinary character is fresh. -/
theorem of_next {src : Source} (h : src.chars[p]? = some c) (hc : isIntroducer c = false)
    (hslash : mode = .full → c ≠ '\\') : Fresh src mode segment p := by
  intro d _ hd hmeans
  obtain rfl := Option.some.inj (h.symm.trans hd)
  rcases hmeans with hintro | ⟨hfull, rfl⟩
  · exact absurd (hc.symm.trans hintro) Bool.false_ne_true
  · exact absurd rfl (hslash hfull)

end Fresh

/-! ## Claims -/

/-- What is known at a place of a line when rules are tried there. -/
structure Here (deep : Prop) (r : Reading) (s : State) (segment : Span) : Prop where
  mem : segment ∈ r.segments
  start_le : segment.start ≤ s.place
  lt : s.place < segment.stop
  stop_le : segment.stop ≤ r.source.size
  fresh : Fresh r.source r.mode segment s.place
  parts : PartsMade deep r s.parts

/-- The place at which rules are tried, with the rest of its line. -/
abbrev Reading.site (r : Reading) (s : State) (segment : Span) : Site :=
  ⟨segment, r.source.slice s.place segment.stop⟩

/-- What a rule that claims a place gives: parts that are as they should be, if the delimiters of commands are those of
a state that is reached, and a place that is fresh or stands behind the delimiter of a verbatim body. -/
structure Gives (deep : Prop) (r : Reading) (segment : Span) (s s' : State) : Prop where
  parts : (∀ d, .waiting d ∈ s'.parts → d.opener.isCommand = true → r.OpensCommand d.span) →
    (s'.overflow.isSome = true → deep) → PartsMade deep r s'.parts
  lands : s'.segments = s.segments ∧ Fresh r.source r.mode segment s'.place ∨
    ∃ p, s'.place = p + 1 ∧ r.source.chars[p]? = some '}'

/-- A verdict that gives what it should. -/
def Verdict.Gives (deep : Prop) (r : Reading) (segment : Span) (s : State) : Verdict → Prop
  | .claimed s' => Markup.Gives deep r segment s s'
  | .declined => True
  | .tooDeep => True

theorem Verdict.Gives.ite {c : Prop} [Decidable c] {v w : Verdict} (hv : c → v.Gives deep r segment s)
    (hw : w.Gives deep r segment s) : (if c then v else w).Gives deep r segment s := by
  split
  · rename_i hc
    exact hv hc
  · exact hw

/-- A finished node. -/
theorem Gives.node {node : Node} (h : PartsMade deep r s.parts)
    (hnode : (s'.overflow.isSome = true → deep) → Made deep r node) (hparts : s'.parts = .done node :: s.parts)
    (hsegments : s'.segments = s.segments) (hfresh : Fresh r.source r.mode segment s'.place) :
    Gives deep r segment s s' :=
  ⟨fun _ hoverflow => hparts ▸ h.push (hnode hoverflow), .inl ⟨hsegments, hfresh⟩⟩

/-- A place or an overflow that was noted does not matter. -/
theorem Gives.congr {s'' : State} (h : Gives deep r segment s s') (hparts : s''.parts = s'.parts)
    (hoverflow : s''.overflow = s'.overflow) (hplace : s''.place = s'.place) (hsegments : s''.segments = s'.segments) :
    Gives deep r segment s s'' :=
  ⟨hparts ▸ hoverflow ▸ h.parts, hplace ▸ hsegments ▸ h.lands⟩

theorem isSome_first {a b : Option Nat} (h : b.isSome = true) : (Limited.first a b).isSome = true := by
  cases a with
  | none => exact h
  | some _ => rfl

/-- Regions inside a region whose nodes are made by the rules. -/
def NestedMade (deep : Prop) (r : Reading) : Prop :=
  ∀ inner mode, inner.start < inner.stop → inner.stop ≤ r.source.size →
    ((r.env.nested inner mode).overflow.isSome = true → deep) →
    Each (Made deep (r.inside inner mode)) (r.env.nested inner mode).value ∧
      (deep ∨ (r.env.nested inner mode).value = (r.inside inner mode).content.value)

/-! ## Rules -/

section Rules

variable (hs : Here deep r s segment)

include hs

/-- A text from the place on. -/
theorem Gives.text {stop : Nat} (hpiece : Piece deep r segment s.place stop)
    (hfresh : Fresh r.source r.mode segment stop) : Gives deep r segment s (s.pushLeaf r.source .text stop) :=
  .node hs.parts (fun _ => .text (.one hpiece)) rfl rfl hfresh

/-- A whole run at the place. -/
theorem Here.run (c : Char) (hpos : 0 < runLength (· == c) (r.source.slice s.place segment.stop)) :
    WholeRun r.source segment c s.place (s.place + runLength (· == c) (r.source.slice s.place segment.stop)) := by
  have hle := r.source.runLength_slice_le (· == c) (Nat.le_of_lt hs.lt)
  refine ⟨⟨hs.start_le, by omega, hle⟩, fun p hp hlt => ?_, fun hstop heq => ?_⟩
  · obtain ⟨d, hd⟩ : ∃ d, r.source.chars[p]? = some d := by
      have hsize : p < r.source.chars.size := Nat.lt_of_lt_of_le (Nat.lt_of_lt_of_le hlt hle) hs.stop_le
      exact ⟨_, Array.getElem?_eq_getElem hsize⟩
    have hfits := Source.of_runLength hp hlt hd
    rw [hd, eq_of_beq hfits]
  · rw [← Source.getElem?_slice hstop] at heq
    exact absurd (getElem?_runLength heq) (by simp)

omit hs in
/-- A place behind a whole run of another character than backslashes is fresh. -/
theorem WholeRun.fresh {stop : Nat} (h : WholeRun r.source segment c s.place stop) (hc : c ≠ '\\') :
    Fresh r.source r.mode segment stop := by
  have hlt := h.spot.lt
  obtain ⟨p, rfl⟩ : ∃ p, stop = p + 1 := ⟨stop - 1, by omega⟩
  refine .of_last ?_
  rw [h.chars p (by omega) (Nat.lt_succ_self p)]
  exact fun heq => hc (Option.some.inj heq)

/-- An escape takes the backslash with what stands behind it. -/
theorem escapeRule_gives (hfull : r.mode = .full) (hrest : r.source.slice s.place segment.stop = '\\' :: cs) :
    (escapeRule r.env s (r.site s segment)).Gives deep r segment s := by
  unfold escapeRule
  rw [show (r.site s segment).rest = '\\' :: cs from hrest]
  split
  · rename_i first c rest heq
    obtain ⟨-, rfl⟩ := List.cons.inj heq
    refine .ite (fun _ => ?_) trivial
    have hslash := (Source.of_slice_cons hrest).2
    have hnext : r.source.chars[s.place + 1]? = some c :=
      (Source.of_slice_cons (r.source.slice_tail hrest)).2
    refine Gives.node hs.parts (fun _ => .free rfl) rfl rfl ?_
    show Fresh _ _ _ (s.place + 1 + 1)
    by_cases hc : c = '\\'
    · -- a pair of backslashes leaves the parity as it is
      intro d _ _ _
      have heven := hs.fresh '\\' hs.lt hslash (.inr ⟨hfull, rfl⟩)
      rw [slashes_backslash (Nat.le_succ_of_le hs.start_le) (hc ▸ hnext), slashes_backslash hs.start_le hslash]
      obtain ⟨k, hk⟩ := heven
      exact ⟨k + 1, by omega⟩
    · exact .of_last fun hback => hc (Option.some.inj (hnext.symm.trans hback))
  · trivial

omit hs in
/-- A verbatim body between its delimiters. -/
theorem verbatimNode_made {opening closing : Nat} (hleft : r.source.chars[opening]? = some '{')
    (hleft' : r.source.chars[opening + 1]? = some '|') (hright : r.source.chars[closing]? = some '|')
    (hright' : r.source.chars[closing + 1]? = some '}') : Made deep r (verbatimNode r.source opening closing) := by
  have hdelim : ∀ p c d, r.source.chars[p]? = some c → r.source.chars[p + 1]? = some d → isMark c = false →
      isMark d = false → Made deep r (leafOf r.source .verbatimDelim p (p + 2)) := by
    intro p c d hc hd hmark hmark'
    refine .sign rfl fun q e hq hlt he => ?_
    obtain rfl | rfl : q = p ∨ q = p + 1 := by omega
    · exact Option.some.inj (hc.symm.trans he) ▸ hmark
    · exact Option.some.inj (hd.symm.trans he) ▸ hmark'
  refine .wrapper rfl (Each.append (Each.cons ?_ (.optional (.single (.free rfl)))) (.single ?_))
  · exact hdelim _ _ _ hleft hleft' rfl rfl
  · exact hdelim _ _ _ hright hright' rfl rfl

omit hs in
/-- The content after a colon: white space, and then a region that goes on to the end of the line or to a brace. -/
theorem lineContent_cases (env : Env) (s : State) {limit start : Nat} (hstart : start ≤ limit)
    (hlimit : limit ≤ env.source.size) : ∃ content stop, start ≤ content ∧ content ≤ stop ∧ stop ≤ limit ∧
      (stop = limit ∨ env.source.chars[stop]? = some '}') ∧
      (∀ p c, start ≤ p → p < content → env.source.chars[p]? = some c → isWhitespace c = true) ∧
      lineContent env s limit start =
        (if content < stop then
          (⟨(if start < content then [leafOf env.source .space start content] else []) ++
            [.markup .lineContent (env.nested ⟨content, stop⟩ .full).value],
            (env.nested ⟨content, stop⟩ .full).overflow⟩, stop)
        else (⟨if start < content then [leafOf env.source .space start content] else [], none⟩, stop)) := by
  have hstop := lineContentLength_le (s.nesting.inside .brace) 0 (env.source.slice start limit)
  have hends := lineContentLength_end (s.nesting.inside .brace) 0 (env.source.slice start limit)
  have hlength := env.source.length_slice (i := start) hlimit
  refine ⟨_, start + lineContentLength (s.nesting.inside .brace) 0 (env.source.slice start limit),
    Nat.le_add_right start _, env.source.runLength_slice_le isWhitespace (Nat.le_add_right start _), by omega, ?_, ?_,
    rfl⟩
  · exact hends.imp (fun h => by omega) fun h => (Source.of_getElem?_slice h).2
  · exact fun p c hp hlt hc => Source.of_runLength hp hlt hc

/-- The content of an inline component leads to a fresh place. -/
theorem lineContent_fresh {start : Nat} (hstart : start ≤ segment.stop) :
    Fresh r.source r.mode segment (lineContent r.env s segment.stop start).2 := by
  obtain ⟨content, stop, -, -, -, hends, -, heq⟩ := lineContent_cases r.env s hstart hs.stop_le
  have hsame : (lineContent r.env s segment.stop start).2 = stop := by
    rw [heq]
    split <;> rfl
  rw [hsame]
  rcases hends with rfl | hbrace
  · exact .of_end (Nat.le_refl _)
  · exact .of_next hbrace rfl fun _ => by decide

/-- The content of an inline component is white space and a region of its own. -/
theorem lineContent_made {start : Nat} (hnested : NestedMade deep r) (hfull : r.mode = .full)
    (hbehind : s.place < start) (hstart : start ≤ segment.stop) (hcolon : r.source.chars[start - 1]? = some ':')
    (hoverflow : (lineContent r.env s segment.stop start).1.overflow.isSome = true → deep) :
    Each (Made deep r) (lineContent r.env s segment.stop start).1.value := by
  have hplace := hs.start_le
  have hsize := hs.stop_le
  obtain ⟨content, stop, hcontent, hle, hstop, hends, hwhite, heq⟩ := lineContent_cases r.env s hstart hsize
  have hspace : Each (Made deep r) (if start < content then [leafOf r.source .space start content] else []) := by
    refine .optional (.single (.sign rfl fun p c hp hlt hc => ?_))
    have hblank := hwhite p c hp hlt hc
    by_contra hmark
    simp only [isMark, Bool.not_eq_false, Bool.or_eq_true, beq_iff_eq] at hmark
    rcases hmark with (rfl | rfl) | rfl <;> exact absurd hblank (by decide)
  rw [heq] at hoverflow ⊢
  split at hoverflow
  · rename_i hlt
    rw [if_pos hlt]
    have hinside : Nested r.source segment ⟨content, stop⟩ := by
      refine ⟨by show segment.start < content; omega, hlt, hstop, ?_, hends⟩
      show ∃ c, r.source.chars[content - 1]? = some c ∧ _
      by_cases hnone : content = start
      · exact ⟨':', hnone ▸ hcolon, .inl rfl⟩
      · have hlast : r.source.chars[content - 1]? = some _ :=
          Array.getElem?_eq_getElem (show content - 1 < r.source.size by omega)
        exact ⟨_, hlast, .inr (hwhite _ _ (by omega) (by omega) hlast)⟩
    obtain ⟨hmade, hread⟩ := hnested ⟨content, stop⟩ .full hlt (Nat.le_trans hstop hsize) hoverflow
    exact hspace.append (.single (.line hfull hs.mem hinside hmade hread))
  · rename_i hnone
    rw [if_neg hnone]
    exact hspace

/-- What was read as a head at the place stands there as one. -/
theorem Here.command {width : Nat} {head : Head} (hwidth : 0 < width)
    (hsigil : ∀ p c, s.place ≤ p → p < s.place + width → r.source.chars[p]? = some c → isIntroducer c = true ∨ c = '.')
    (hread : Head.read? r.source s.place width segment.stop = some head) :
    CommandAt r s.place width head ∧ s.place < head.stop ∧ head.stop ≤ segment.stop ∧
      r.source.chars[head.stop - 1]? ≠ some '\\' := by
  obtain ⟨_, honward, hlimit, -⟩ := Head.read?_run hread hs.stop_le
  refine ⟨⟨hwidth, hsigil, segment, hs.mem, hs.start_le, hs.fresh, hread⟩, by omega, hlimit, ?_⟩
  refine (Head.read?_ends hread).last fun hslash => ?_
  rcases hsigil _ _ (by omega) (by omega) hslash with hback | hback <;> exact absurd hback (by decide)

omit hs in
/-- The place behind a head is fresh. -/
theorem Fresh.behind {stop : Nat} (hpos : 0 < stop) (h : r.source.chars[stop - 1]? ≠ some '\\') :
    Fresh r.source r.mode segment stop := by
  obtain ⟨p, rfl⟩ : ∃ p, stop = p + 1 := ⟨stop - 1, by omega⟩
  exact .of_last h

/-- A head before a brace, as a piece of text. -/
theorem Here.headPiece {stop : Nat} (hlt : s.place < stop) (hslash : r.source.chars[stop - 1]? ≠ some '\\')
    (hin : stop < segment.stop) (hbrace : r.source.chars[stop]? = some '{') (hopens : r.OpensCommand ⟨s.place, stop⟩) :
    Piece deep r segment s.place stop := by
  refine ⟨hs.mem, ⟨hs.start_le, hlt, Nat.le_of_lt hin⟩, fun _ c hc _ _ heq => ?_, fun d _ hback => absurd hback hslash,
    .inr (.inr (.inl hopens))⟩
  obtain rfl := Option.some.inj (hbrace.symm.trans heq)
  exact absurd hc (by decide)

/-- A command is made of its head and what stands behind it, and leads to a fresh place. -/
theorem commandRule_gives {kind : MarkupKind} {width : Nat} (hnested : NestedMade deep r)
    (hkind : kind.isCommand = true) (hfull : kind = .inlineComponent → r.mode = .full) (hwidth : 0 < width)
    (hsigil : ∀ p c, s.place ≤ p → p < s.place + width → r.source.chars[p]? = some c →
      isIntroducer c = true ∨ c = '.') :
    (commandRule r.env s (r.site s segment) kind width).Gives deep r segment s := by
  unfold commandRule
  dsimp only
  refine .ite (fun _ => trivial) ?_
  split
  · trivial
  rename_i head hread
  obtain ⟨hcommand, hlt, hlimit, hslash⟩ := hs.command hwidth hsigil hread
  have hmade : ∀ children, Each (Made deep r) children → Made deep r (.markup kind (head.nodes r.source ++ children)) :=
    fun _ hchildren => .command hkind hcommand hchildren
  have hfresh : Fresh r.source r.mode segment head.stop := .behind (by omega) hslash
  refine .ite (fun _ => trivial) (.ite (fun _ => trivial) ?_)
  split
  · -- a verbatim body
    rename_i close hverbatim
    split at hverbatim
    · rename_i hopening
      obtain ⟨n, hlength, hclose⟩ := Option.bind_eq_some_iff.mp hverbatim
      obtain ⟨hbar, hbrace⟩ := verbatimLength?_end hlength
      split at hclose
      · obtain rfl := Option.some.inj hclose
        have hopening : (r.source.slice head.stop segment.stop).take 2 = ['{', '|'] := eq_of_beq hopening
        have hfirst : (r.source.slice head.stop segment.stop)[0]? = some '{' := by
          rw [← List.getElem?_take_of_lt (show 0 < 2 by decide), hopening, List.getElem?_cons_zero]
        have hsecond : (r.source.slice head.stop segment.stop)[1]? = some '|' := by
          rw [← List.getElem?_take_of_lt (show 1 < 2 by decide), hopening]
          rfl
        have hend : r.source.chars[head.stop + 2 + (n + 1)]? = some '}' := (Source.of_getElem?_slice hbrace).2
        refine ⟨fun _ _ => hs.parts.push (hmade _ (.single ?_)), .inr ⟨head.stop + 2 + n + 1, rfl, hend⟩⟩
        exact verbatimNode_made (Source.of_getElem?_slice hfirst).2 (Source.of_getElem?_slice hsecond).2
          (Source.of_getElem?_slice hbar).2 hend
      · exact absurd hclose (by simp)
    · exact absurd hverbatim (by simp)
  split
  · -- a braced body, which stays open
    rename_i hopens
    obtain ⟨hin, hbrace⟩ : head.stop < segment.stop ∧ r.source.chars[head.stop]? = some '{' := by
      have hhead := eq_of_beq hopens
      rw [List.head?_eq_getElem?] at hhead
      exact Source.of_getElem?_slice hhead
    have hstands : IsBrace r head.stop := ⟨segment, hs.mem, by have := hs.start_le; omega, hin, .inl hbrace⟩
    refine ⟨fun hawaits _ => ?_, .inl ⟨rfl, ?_⟩⟩
    · refine PartsMade.push (q := .waiting _) ⟨hstands.piece, rfl, hstands⟩
        (hs.parts.push (q := .waiting _) ⟨⟨segment, ?_⟩, hkind, width, head, hcommand, rfl⟩)
      exact hs.headPiece hlt hslash hin hbrace (hawaits _ (List.mem_cons_of_mem _ List.mem_cons_self) rfl)
    · show Fresh _ _ _ (head.stop + 1)
      exact .of_last (by rw [hbrace]; decide)
  refine .ite (fun _ => trivial) ?_
  split
  · -- content after a colon
    rename_i hcolon
    simp only [Bool.and_eq_true, beq_iff_eq] at hcolon
    obtain ⟨hin, hchar⟩ : head.stop < segment.stop ∧ r.source.chars[head.stop]? = some ':' := by
      have hhead := hcolon.1.2
      rw [List.head?_eq_getElem?] at hhead
      exact Source.of_getElem?_slice hhead
    have hsign : Made deep r (leafOf r.source .colon head.stop (head.stop + 1)) := by
      refine .sign rfl fun p c hp hlt hc => ?_
      obtain rfl : p = head.stop := by omega
      obtain rfl := Option.some.inj (hchar.symm.trans hc)
      rfl
    refine Gives.node hs.parts (fun hoverflow => hmade _ (Each.cons hsign ?_)) rfl rfl (lineContent_fresh hs hin)
    exact lineContent_made hs hnested (hfull hcolon.1.1) (by omega) hin hchar fun hdeep =>
      hoverflow (isSome_first hdeep)
  · exact Gives.node hs.parts (fun _ => List.append_nil (head.nodes r.source) ▸ hmade [] .nil) rfl rfl hfresh

theorem referenceRule_gives (hrest : r.source.slice s.place segment.stop = '&' :: cs) :
    (referenceRule r.env s (r.site s segment)).Gives deep r segment s := by
  unfold referenceRule
  split
  · trivial
  rename_i head hread
  have hsigil : ∀ p c, s.place ≤ p → p < s.place + 1 → r.source.chars[p]? = some c →
      isIntroducer c = true ∨ c = '.' := by
    intro p c hp hlt hc
    obtain rfl : p = s.place := by omega
    obtain rfl := Option.some.inj ((Source.of_slice_cons hrest).2.symm.trans hc)
    exact .inl rfl
  obtain ⟨hcommand, hlt, hlimit, hslash⟩ := hs.command Nat.one_pos hsigil hread
  have hfresh : Fresh r.source r.mode segment head.stop := .behind (by omega) hslash
  refine .ite (fun _ => trivial) (Gives.node hs.parts (fun _ => ?_) rfl rfl hfresh)
  exact List.append_nil (head.nodes r.source) ▸ Made.command rfl hcommand Each.nil

/-- A formula is a region of its own between its dollar signs. -/
theorem mathRule_gives (hnested : NestedMade deep r) (hfull : r.mode = .full)
    (hrest : r.source.slice s.place segment.stop = '$' :: cs) :
    (mathRule r.env s (r.site s segment)).Gives deep r segment s := by
  have hlen := r.source.length_slice (i := s.place) hs.stop_le
  unfold mathRule
  rw [show (r.site s segment).rest = '$' :: cs from hrest]
  split
  · rename_i first c cs' heq
    obtain ⟨-, rfl⟩ := List.cons.inj heq
    rw [hrest, List.length_cons] at hlen
    split
    · trivial
    rename_i hc
    simp only [Bool.or_eq_true, beq_iff_eq, not_or] at hc
    split
    · trivial
    rename_i n hmath
    dsimp only
    refine .ite (fun _ => trivial) ?_
    have hlt := mathLength?_lt hmath
    have hpos := mathLength?_pos hmath hc.1
    have htail := r.source.slice_tail hrest
    have hclose : s.place + 1 + n < segment.stop ∧ r.source.chars[s.place + 1 + n]? = some '$' :=
      Source.of_getElem?_slice (htail ▸ mathLength?_end hmath)
    have hopening : WholeRun r.source segment '$' s.place (s.place + 1) := by
      refine ⟨⟨hs.start_le, Nat.lt_succ_self _, hs.lt⟩, fun p hp hlt => ?_, fun _ heq => ?_⟩
      · obtain rfl : p = s.place := by omega
        exact (Source.of_slice_cons hrest).2
      · exact hc.1 (Option.some.inj ((Source.of_slice_cons htail).2.symm.trans heq))
    have hsize : s.place + 1 + n ≤ r.source.size := Nat.le_trans (Nat.le_of_lt hclose.1) hs.stop_le
    refine Gives.node hs.parts (fun hoverflow => ?_) rfl rfl (.of_last (p := s.place + 1 + n) ?_)
    · have hmade := hnested ⟨s.place + 1, s.place + 1 + n⟩ .template (Nat.lt_add_of_pos_right hpos) hsize
        fun hdeep => hoverflow (isSome_first hdeep)
      exact .formula hfull hs.mem hopening hclose.symm (Nat.lt_add_of_pos_right hpos) hmade.1
    · rw [hclose.2]
      decide
  · trivial

/-- Code stands between whole runs of backticks. -/
theorem codeRule_gives (hfull : r.mode = .full) (hrest : r.source.slice s.place segment.stop = '\x60' :: cs) :
    (codeRule r.env s (r.site s segment)).Gives deep r segment s := by
  have hpos : 0 < runLength (· == '\x60') (r.source.slice s.place segment.stop) := by
    rw [hrest, runLength_cons _ (by decide)]
    exact Nat.succ_pos _
  have hopening := hs.run '\x60' hpos
  have hdrop := r.source.slice_drop s.place segment.stop (runLength (· == '\x60') (r.source.slice s.place segment.stop))
  unfold codeRule
  dsimp only [Reading.env_source]
  generalize runLength (· == '\x60') (r.source.slice s.place segment.stop) = width at *
  rw [hdrop]
  split
  · exact .text hs (hopening.piece hs.mem (by decide)) (hopening.fresh (by decide))
  rename_i n hcode
  obtain ⟨hin, hwidth⟩ := codeLength?_bound hcode
  obtain ⟨hticks, hend⟩ := codeLength?_end hcode
  have hbound := r.source.length_slice_le (s.place + width) segment.stop
  have hlast := hopening.spot.stop_le
  have hclosing : WholeRun r.source segment '\x60' (s.place + width + n - width)
      (s.place + width + n - width + width) := by
    have hplace := hs.start_le
    refine ⟨⟨by omega, by omega, by omega⟩, fun p hp hlt => ?_, fun hstop heq => ?_⟩
    · have htick := Source.of_getElem?_slice (hticks (p - (s.place + width)) (by omega) (by omega))
      rw [show s.place + width + (p - (s.place + width)) = p by omega] at htick
      exact htick.2
    · rw [show s.place + width + n - width + width = s.place + width + n by omega] at hstop heq
      exact hend ((Source.getElem?_slice hstop).trans heq)
  refine Gives.node hs.parts (fun _ => .wrapper rfl (Each.append (Each.cons ?_ ?_) (.single ?_))) rfl rfl ?_
  · exact .run hfull (.inr ⟨rfl, rfl⟩) hs.mem hopening
  · exact .optional (.single (.free rfl))
  · exact .run hfull (.inr ⟨rfl, rfl⟩) hs.mem hclosing
  · have hpos' := hclosing.spot.lt
    refine .behind (by show 0 < s.place + width + n - width + width; omega) ?_
    show r.source.chars[s.place + width + n - width + width - 1]? ≠ _
    rw [hclosing.chars _ (by omega) (by omega)]
    decide

/-! ### Marks -/

omit hs in
/-- What is tested of the character before the place. -/
theorem before_any (test : Char → Bool) : ((r.site s segment).before? r.env s.place).any test = true ↔
    ∃ d, segment.start < s.place ∧ r.source.chars[s.place - 1]? = some d ∧ test d = true := by
  unfold Site.before?
  by_cases hstart : segment.start < s.place
  · rw [if_pos hstart, Reading.env_source, Source.before?, if_neg (by omega), Option.any_eq_true]
    simp only [hstart, true_and]
  · rw [if_neg hstart]
    simp only [Option.any_none, Bool.false_eq_true, hstart, false_and, exists_false]

omit hs in
/-- What is tested of the first character of a slice. -/
theorem head_any (src : Source) (test : Char → Bool) (i j : Nat) : ((src.slice i j).head?).any test = true ↔
    ∃ d, i < j ∧ src.chars[i]? = some d ∧ test d = true := by
  by_cases hij : i < j
  · rw [Source.head?_slice hij, Option.any_eq_true]
    simp only [hij, true_and]
  · have hnil : src.slice i j = [] := List.eq_nil_of_length_eq_zero (by have := src.length_slice_le i j; omega)
    simp only [hnil, List.head?_nil, Option.any_none, Bool.false_eq_true, hij, false_and, exists_false]

omit hs in
/-- Marks that can open or close are touched by content and do not stand inside a word. -/
theorem flanks_gives {stop : Nat} (hwhole : WholeRun r.source segment c s.place stop) :
    ((flanks r.env s (r.site s segment) c stop).1 = true → Opens r.source segment c s.place stop) ∧
      ((flanks r.env s (r.site s segment) c stop).2 = true → Closes r.source segment c s.place stop) := by
  unfold flanks
  dsimp only [Reading.env_source]
  split
  · exact ⟨fun h => absurd h (by simp), fun h => absurd h (by simp)⟩
  rename_i hwords
  have hspaced : c = '_' → ¬ BetweenWords r.source segment s.place stop := by
    rintro rfl ⟨hprevious, hnext⟩
    refine hwords ?_
    rw [(before_any isWordy).mpr hprevious, (head_any r.source isWordy _ _).mpr hnext]
    rfl
  refine ⟨fun h => ⟨⟨hwhole, hspaced⟩, ?_⟩, fun h => ⟨⟨hwhole, hspaced⟩, ?_⟩⟩
  · obtain ⟨d, hlt, hd, htest⟩ := (head_any r.source _ _ _).mp h
    exact ⟨d, hlt, hd, by simpa using htest⟩
  · obtain ⟨d, hlt, hd, htest⟩ := (before_any _).mp h
    exact ⟨d, hlt, hd, by simpa using htest⟩

/-- Closing a mark wraps what stands above its partner. -/
theorem resolve?_gives {accept : Opener → Bool} {kind : MarkupKind} {width : Nat} (hfull : r.mode = .full)
    (hkinds : IsMarked kind c width) (hcloses : Closes r.source segment c s.place (s.place + width))
    (haccept : ∀ d : Delimiter, accept d.opener = true → d.opener.Stands r d.span →
      d.span.stop = d.span.start + width ∧ ∃ opening ∈ r.segments, Opens r.source opening c d.span.start d.span.stop)
    (h : resolve? r.env s accept kind (s.place + width) = some s') (hslash : c ≠ '\\') :
    Gives deep r segment s s' := by
  obtain ⟨⟨above, d, below⟩, hfound, rfl⟩ := Option.map_eq_some_iff.mp h
  obtain ⟨habove, hopening, hbelow⟩ := hs.parts.found hfound
  obtain ⟨hstop, opening, hmem, hopens⟩ := haccept d (findWaiting?_spec hfound).2 hopening.2
  refine ⟨fun _ _ => hbelow.push (q := .done _) ?_, .inl ⟨rfl, hcloses.whole.fresh hslash⟩⟩
  show Made deep r (.markup kind (leafOf r.source .emphMark d.span.start d.span.stop :: settle r.source above ++
    [leafOf r.source .emphMark s.place (s.place + width)]))
  rw [hstop] at hopens ⊢
  exact .marked hfull hkinds hmem hopens hs.mem hcloses habove.settle

/-- A mark, link or image is opened, or is text if there is no room for it. -/
theorem openMark_gives {opener : Opener} {stop : Nat} (hpiece : Piece deep r segment s.place stop)
    (hstands : opener.Stands r ⟨s.place, stop⟩) (hfresh : Fresh r.source r.mode segment stop) :
    Gives deep r segment s (s.openMark r.source opener stop) := by
  unfold State.openMark
  split
  · exact ⟨fun _ _ => hs.parts.push (q := .waiting _) ⟨⟨segment, hpiece⟩, hstands⟩, .inl ⟨rfl, hfresh⟩⟩
  · refine ⟨fun _ _ => hs.parts.push (q := .done _) ?_, .inl ⟨rfl, hfresh⟩⟩
    exact Made.text (.one hpiece)

theorem emphasisRule_gives (hfull : r.mode = .full) (hc : c = '*' ∨ c = '_')
    (hrest : r.source.slice s.place segment.stop = c :: cs) :
    (emphasisRule r.env s (r.site s segment) c).Gives deep r segment s := by
  have hslash : c ≠ '\\' := by rcases hc with rfl | rfl <;> decide
  have hpos : 0 < runLength (· == c) (r.source.slice s.place segment.stop) := by
    rw [hrest, runLength_cons _ (by simp)]
    exact Nat.succ_pos _
  have hwhole := hs.run c hpos
  obtain ⟨hopens, hcloses⟩ := flanks_gives hwhole
  have hpiece : Piece deep r segment s.place _ := hwhole.piece hs.mem hslash
  have hfresh := hwhole.fresh hslash
  unfold emphasisRule
  dsimp only [Reading.env_source]
  generalize runLength (· == c) (r.source.slice s.place segment.stop) = width at *
  split
  · exact .text hs hpiece hfresh
  rename_i hwidth
  have htwo : width = 1 ∨ width = 2 := by omega
  have hkinds : IsMarked (if width == 2 then .strong else .emph) c width := by
    rcases htwo with rfl | rfl
    · exact .inl ⟨hc, .inl ⟨rfl, rfl⟩⟩
    · exact .inl ⟨hc, .inr ⟨rfl, rfl⟩⟩
  split
  · rename_i s' hclosed
    split at hclosed
    · rename_i hcan
      refine resolve?_gives hs hfull hkinds (hcloses hcan) (fun d haccept hstands => ?_) hclosed hslash
      obtain ⟨opener, span, level⟩ := d
      cases opener with
      | emphasis mark width' =>
          obtain ⟨rfl, rfl⟩ : mark = c ∧ width' = width := by simpa [Opener.isEmphasis] using haccept
          obtain ⟨-, -, -, hstop, hopening⟩ := hstands
          exact ⟨hstop, hopening⟩
      | _ => exact absurd haccept Bool.false_ne_true
    · exact absurd hclosed (by simp)
  · split
    · rename_i hcan
      exact openMark_gives hs hpiece ⟨hfull, hc, htwo, rfl, segment, hs.mem, hopens hcan⟩ hfresh
    · exact .text hs hpiece hfresh

theorem strikeRule_gives (hfull : r.mode = .full) : (strikeRule r.env s (r.site s segment)).Gives deep r segment s := by
  unfold strikeRule
  split
  · trivial
  rename_i htwo
  have htwo : runLength (· == '~') (r.source.slice s.place segment.stop) = 2 := by simpa using htwo
  have hwhole := hs.run '~' (by omega)
  rw [htwo] at hwhole
  obtain ⟨hopens, hcloses⟩ := flanks_gives hwhole
  have hpiece : Piece deep r segment s.place (s.place + 2) := hwhole.piece hs.mem (by decide)
  dsimp only
  split
  · rename_i s' hclosed
    split at hclosed
    · rename_i hcan
      refine resolve?_gives hs hfull (.inr ⟨rfl, rfl, rfl⟩) (hcloses hcan) (fun d haccept hstands => ?_) hclosed
        (by decide)
      obtain ⟨opener, span, level⟩ := d
      cases opener with
      | strike => exact hstands.2
      | _ => exact absurd haccept Bool.false_ne_true
    · exact absurd hclosed (by simp)
  · split
    · rename_i hcan
      exact openMark_gives hs hpiece ⟨hfull, rfl, segment, hs.mem, hopens hcan⟩ (hwhole.fresh (by decide))
    · trivial

/-- What is known of the first characters of the rest of the line is known of the places there. -/
theorem Here.signs {P : Char → Prop} (xs : List Char) (hrest : r.source.slice s.place segment.stop = xs ++ cs)
    (hxs : ∀ c ∈ xs, P c) : ∀ p c, s.place ≤ p → p < s.place + xs.length → r.source.chars[p]? = some c → P c := by
  intro p c hp hlt hc
  refine hxs c ?_
  have hbound := r.source.length_slice (i := s.place) hs.stop_le
  rw [hrest, List.length_append] at hbound
  have hchar : (r.source.slice s.place segment.stop)[p - s.place]? = some c := by
    rw [Source.getElem?_slice (by omega), Nat.add_sub_cancel' hp]
    exact hc
  rw [hrest, List.getElem?_append_left (by omega)] at hchar
  exact List.mem_of_getElem? hchar

/-- The bracket that opens a link, with an exclamation mark in front of it for an image. -/
theorem linkOpenRule_gives (image : Bool)
    (hrest : r.source.slice s.place segment.stop = (if image then ['!', '['] else ['[']) ++ cs) :
    (linkOpenRule r.env s image).Gives deep r segment s := by
  obtain ⟨width, hwidth⟩ : ∃ width, (if image then 2 else 1) = width := ⟨_, rfl⟩
  have hlength : (if image then ['!', '['] else ['[']).length = width := by rw [← hwidth]; cases image <;> rfl
  have hpos : 0 < width := by rw [← hwidth]; cases image <;> decide
  have hlast : r.source.chars[s.place + width - 1]? = some '[' := by
    rw [Nat.add_sub_assoc hpos]
    refine (Source.of_getElem?_slice (j := segment.stop) ?_).2
    rw [hrest, ← hwidth]
    cases image <;> rfl
  have hstop : s.place + width ≤ segment.stop := by
    have hbound := r.source.length_slice (i := s.place) hs.stop_le
    rw [hrest, List.length_append, hlength] at hbound
    omega
  have hpiece : Piece deep r segment s.place (s.place + width) := by
    refine .of_last hs.mem ⟨hs.start_le, by omega, hstop⟩ hlast rfl (by decide) (.inr (.inr (.inr ?_)))
    intro p d hp hlt hslash
    refine absurd rfl (hs.signs (P := (· ≠ '\\')) _ hrest ?_ p '\\' hp (by omega) hslash)
    cases image <;> simp
  have hmarkless : Markless r.source s.place (s.place + width) := by
    refine hlength ▸ hs.signs _ hrest ?_
    cases image <;> simp [isMark]
  have hfresh : Fresh r.source r.mode segment (s.place + width) :=
    .behind (by omega) (by rw [hlast]; decide)
  have hopened : Gives deep r segment s (s.openMark r.source (.link image) (s.place + width)) :=
    openMark_gives hs hpiece hmarkless hfresh
  unfold linkOpenRule
  rw [hwidth]
  show Gives deep r segment s (if s.hasRoom then _ else _)
  split
  · exact hopened.congr rfl rfl rfl rfl
  · exact hopened

omit hs in
/-- A closing bracket is neither a mark nor a backslash. -/
theorem closing_plain (h : (Bracket.closedBy? c).isSome = true) : isMark c = false ∧ c ≠ '\\' := by
  refine ⟨Bool.eq_false_iff.mpr fun hmark => ?_, ?_⟩
  · simp only [isMark, Bool.or_eq_true, beq_iff_eq] at hmark
    rcases hmark with (rfl | rfl) | rfl <;> exact absurd h (by decide)
  · rintro rfl
    exact absurd h (by decide)

omit hs in
/-- A leaf for a single sign. -/
theorem Made.single {kind : MarkupKind} (hkind : kind.isSign = true) (hc : r.source.chars[p]? = some c)
    (hmark : isMark c = false) : Made deep r (leafOf r.source kind p (p + 1)) := by
  refine .sign hkind fun q d hq hlt hd => ?_
  obtain rfl : q = p := by omega
  obtain rfl := Option.some.inj (hc.symm.trans hd)
  exact hmark

/-- The end of a link wraps what stands above its start. -/
theorem linkCloseRule_gives (hrest : r.source.slice s.place segment.stop = ']' :: cs) :
    (linkCloseRule r.env s (r.site s segment)).Gives deep r segment s := by
  unfold linkCloseRule
  dsimp only
  rw [hrest]
  split
  · rename_i first rest heq
    obtain ⟨-, rfl⟩ := List.cons.inj heq
    split
    · trivial
    rename_i n hgroup
    split
    · trivial
    rename_i above d below hfound
    obtain ⟨habove, hopening, hbelow⟩ := hs.parts.found hfound
    have hmarkless : Markless r.source d.span.start d.span.stop := by
      have haccept := (findWaiting?_spec hfound).2
      obtain ⟨opener, span, level⟩ := d
      cases opener with
      | link => exact hopening.2
      | _ => exact absurd haccept Bool.false_ne_true
    have htail := r.source.slice_tail hrest
    obtain ⟨e, hend, hclosed⟩ := groupLength?_end hgroup
    have hchar : r.source.chars[s.place + 2 + n]? = some e :=
      (Source.of_getElem?_slice (r.source.slice_tail htail ▸ hend)).2
    obtain ⟨hplain, hslash⟩ := closing_plain hclosed
    refine ⟨fun _ _ => hbelow.push (q := .done _) (.wrapper ?_ ?_), .inl ⟨rfl, ?_⟩⟩
    · split <;> rfl
    · refine Each.append (Each.append (Each.append (Each.cons (.sign rfl hmarkless) habove.settle) (Each.cons ?_
        (.single ?_))) (.optional (.single (.free rfl)))) (.single ?_)
      · exact .single rfl (Source.of_slice_cons hrest).2 rfl
      · exact .single rfl (Source.of_slice_cons htail).2 rfl
      · exact .single rfl hchar hplain
    · exact .of_last (p := s.place + 2 + n) fun hback => hslash (Option.some.inj (hchar.symm.trans hback))
  · trivial

theorem addressRule_gives (hrest : r.source.slice s.place segment.stop = '<' :: cs) :
    (addressRule r.env s (r.site s segment)).Gives deep r segment s := by
  unfold addressRule
  dsimp only
  rw [hrest, List.tail_cons]
  split
  · trivial
  rename_i n haddress
  have hend : r.source.chars[s.place + 1 + n]? = some '>' :=
    (Source.of_getElem?_slice (r.source.slice_tail hrest ▸ addressLength?_end haddress)).2
  refine Gives.node hs.parts (fun _ => .wrapper rfl (Each.cons ?_ (Each.cons (.free rfl) (.single ?_)))) rfl rfl ?_
  · exact .single rfl (Source.of_slice_cons hrest).2 rfl
  · exact .single rfl hend rfl
  · exact .of_last (p := s.place + 1 + n) (by rw [hend]; decide)

theorem dashRule_gives (hfull : r.mode = .full) : (dashRule r.env s (r.site s segment)).Gives deep r segment s := by
  unfold dashRule
  refine .ite (fun hthree => ?_) trivial
  have hthree : runLength (· == '-') (r.source.slice s.place segment.stop) = 3 := eq_of_beq hthree
  have hwhole := hs.run '-' (by omega)
  rw [hthree] at hwhole
  exact Gives.node hs.parts (fun _ => .run hfull (.inl ⟨rfl, rfl, rfl⟩) hs.mem hwhole) rfl rfl
    (hwhole.fresh (by decide))

theorem commentRule_gives : (commentRule r.env s (r.site s segment)).Gives deep r segment s :=
  .ite (fun _ => Gives.node hs.parts (fun _ => .free rfl) rfl rfl (.of_end (Nat.le_refl _))) trivial

/-- The end of a body wraps what stands above its start.  Another body may follow. -/
theorem closeBodyRule_gives (hrest : r.source.slice s.place segment.stop = '}' :: cs) :
    (closeBodyRule r.env s (r.site s segment)).Gives deep r segment s := by
  have hbrace := (Source.of_slice_cons hrest).2
  have hstands : IsBrace r s.place := ⟨segment, hs.mem, hs.start_le, hs.lt, .inr hbrace⟩
  have hfresh : Fresh r.source r.mode segment (s.place + 1) := .of_last (by rw [hbrace]; decide)
  unfold closeBodyRule
  dsimp only [Reading.env_source]
  refine .ite (fun _ => trivial) ?_
  split
  · trivial
  rename_i above d below hfound
  obtain ⟨habove, hopening, hbelow⟩ := hs.parts.lastBody hfound
  have hblock : Made deep r (.markup .contentBlock (leafOf r.source .leftBrace d.span.start d.span.stop ::
      settle r.source above ++ [leafOf r.source .rightBrace s.place (s.place + 1)])) :=
    .wrapper rfl (Each.append (Each.cons hopening habove.settle) (.single (.brace (.inr rfl) hstands)))
  generalize Node.markup .contentBlock _ = block at hblock ⊢
  have hparts : PartsMade deep r (.done block :: below) := hbelow.push hblock
  have hfinish : ∀ closed : State, closed.parts = .done block :: below → closed.place = s.place + 1 →
      closed.segments = s.segments → Gives deep r segment s (closed.finishCommand r.source) := by
    intro closed hclosed hplace hsegments
    obtain ⟨hsame, hkept⟩ := finishCommand_place r.source closed
    exact ⟨fun _ _ => PartsMade.finishCommand (hclosed ▸ hparts),
      .inl ⟨hkept.trans hsegments, (hsame.trans hplace) ▸ hfresh⟩⟩
  split
  · exact hfinish _ rfl rfl rfl
  · rename_i htail
    rw [hrest, List.tail_cons] at htail
    subst htail
    have hnext := Source.of_slice_cons (r.source.slice_tail hrest)
    have hagain : IsBrace r (s.place + 1) :=
      ⟨segment, hs.mem, Nat.le_succ_of_le hs.start_le, hnext.1, .inl hnext.2⟩
    refine ⟨fun _ _ => hparts.push (q := .waiting _) ⟨hagain.piece, rfl, hagain⟩, .inl ⟨rfl, ?_⟩⟩
    exact .of_last (p := s.place + 1) (by rw [hnext.2]; decide)
  · exact hfinish _ rfl rfl rfl

/-- **Every rule gives what it should**, where all rules are active. -/
theorem fullRule_gives (hnested : NestedMade deep r) (hfull : r.mode = .full)
    (hrest : r.source.slice s.place segment.stop = c :: cs) :
    (fullRule r.env s (r.site s segment) c).Gives deep r segment s := by
  have hcommand : ∀ (kind : MarkupKind), kind.isCommand = true → (isIntroducer c = true ∨ c = '.') →
      (commandRule r.env s (r.site s segment) kind 1).Gives deep r segment s := fun kind hkind hc =>
    commandRule_gives hs hnested hkind (fun _ => hfull) Nat.one_pos
      (hs.signs [c] hrest (List.forall_mem_singleton.mpr hc))
  unfold fullRule
  refine .ite (fun hc => ?_) (.ite (fun hc => ?_) ?_)
  · exact escapeRule_gives hs hfull (eq_of_beq hc ▸ hrest)
  · exact hcommand _ rfl (.inl (eq_of_beq hc ▸ rfl))
  refine .ite (fun hc => .ite (fun hnext => ?_) trivial) (.ite (fun hc => ?_) ?_)
  · obtain rfl := eq_of_beq hc
    have hnext : (r.source.slice s.place segment.stop)[1]? = some '@' := eq_of_beq hnext
    rw [hrest, List.getElem?_cons_succ, ← List.head?_eq_getElem?, List.head?_eq_some_iff] at hnext
    obtain ⟨rest, rfl⟩ := hnext
    exact commandRule_gives hs hnested rfl (fun _ => hfull) Nat.two_pos
      (hs.signs ['.', '@'] hrest (by simp [isIntroducer]))
  · exact hcommand _ rfl (.inl (eq_of_beq hc ▸ rfl))
  refine .ite (fun hc => ?_) (.ite (fun hc => ?_) (.ite (fun hc => ?_) (.ite (fun hc => ?_) ?_)))
  · exact referenceRule_gives hs (eq_of_beq hc ▸ hrest)
  · exact mathRule_gives hs hnested hfull (eq_of_beq hc ▸ hrest)
  · exact codeRule_gives hs hfull (eq_of_beq hc ▸ hrest)
  · exact emphasisRule_gives hs hfull (by simpa only [Bool.or_eq_true, beq_iff_eq] using hc) hrest
  refine .ite (fun _ => strikeRule_gives hs hfull) (.ite (fun hc => ?_)
    (.ite (fun hc => .ite (fun hnext => ?_) trivial) ?_))
  · exact linkOpenRule_gives hs false (eq_of_beq hc ▸ hrest)
  · obtain rfl := eq_of_beq hc
    have hnext : (r.source.slice s.place segment.stop)[1]? = some '[' := eq_of_beq hnext
    rw [hrest, List.getElem?_cons_succ, ← List.head?_eq_getElem?, List.head?_eq_some_iff] at hnext
    obtain ⟨rest, rfl⟩ := hnext
    exact linkOpenRule_gives hs true hrest
  refine .ite (fun hc => ?_) (.ite (fun hc => ?_) (.ite (fun _ => dashRule_gives hs hfull) ?_))
  · exact linkCloseRule_gives hs (eq_of_beq hc ▸ hrest)
  · exact addressRule_gives hs (eq_of_beq hc ▸ hrest)
  refine .ite (fun _ => commentRule_gives hs) (.ite (fun hc => ?_) trivial)
  exact closeBodyRule_gives hs (eq_of_beq hc ▸ hrest)

/-- **Every rule gives what it should**, in a formula. -/
theorem templateRule_gives (hnested : NestedMade deep r) (hrest : r.source.slice s.place segment.stop = c :: cs) :
    (templateRule r.env s (r.site s segment) c).Gives deep r segment s := by
  unfold templateRule
  refine .ite (fun hc => .ite (fun hnext => ?_) trivial) (.ite (fun hc => ?_) (.ite (fun hc => ?_) trivial))
  · have hchar : r.source.chars[s.place + 1]? ≠ some '\\' := by
      simp only [Bool.or_eq_true, beq_iff_eq] at hnext
      rcases hnext with hnext | hnext <;>
      · rw [(Source.of_getElem?_slice hnext).2]
        decide
    exact Gives.node hs.parts (fun _ => .free rfl) rfl rfl (.of_last (p := s.place + 1) hchar)
  · obtain rfl := eq_of_beq hc
    exact commandRule_gives hs hnested rfl nofun Nat.one_pos (hs.signs ['#'] hrest (by simp [isIntroducer]))
  · exact closeBodyRule_gives hs (eq_of_beq hc ▸ hrest)

/-! ### Plain text -/

omit hs in
/-- Characters that only whole runs of are marks, and backslashes in pairs, are never left to plain text. -/
theorem fullRule_unclaimed {env : Env} {site : Site} (hrest : site.rest = c :: cs)
    (h : ∀ s', fullRule env s site c ≠ .claimed s') : isRunMark c = false ∧ (c = '\\' → cs.head? ≠ some '\\') := by
  have hemphasis : ∀ mark, ∃ s', emphasisRule env s site mark = .claimed s' := by
    intro mark
    unfold emphasisRule
    dsimp only
    split
    · exact ⟨_, rfl⟩
    · split
      · exact ⟨_, rfl⟩
      · split <;> exact ⟨_, rfl⟩
  refine ⟨Bool.eq_false_iff.mpr fun hmark => ?_, ?_⟩
  · simp only [isRunMark, Bool.or_eq_true, beq_iff_eq] at hmark
    rcases hmark with (rfl | rfl) | rfl
    · obtain ⟨s', hs'⟩ := hemphasis '*'
      exact h s' hs'
    · obtain ⟨s', hs'⟩ := hemphasis '_'
      exact h s' hs'
    · obtain ⟨s', hs'⟩ : ∃ s', codeRule env s site = .claimed s' := by
        unfold codeRule
        dsimp only
        split <;> exact ⟨_, rfl⟩
      exact h s' hs'
  · rintro rfl hpair
    obtain ⟨rest, rfl⟩ := List.head?_eq_some_iff.mp hpair
    refine h (s.pushLeaf env.source .escape (s.place + 2)) ?_
    show escapeRule env s site = _
    unfold escapeRule
    rw [hrest]
    rfl

omit hs in
/-- A trigger is more than a mark or a backslash. -/
theorem ordinary_of_trigger (h : isTrigger c = false) : isRunMark c = false ∧ c ≠ '\\' := by
  refine ⟨Bool.eq_false_iff.mpr fun hmark => ?_, ?_⟩
  · simp only [isRunMark, Bool.or_eq_true, beq_iff_eq] at hmark
    rcases hmark with (rfl | rfl) | rfl <;> exact absurd h (by decide)
  · rintro rfl
    exact absurd h (by decide)

/-- Plain text is a run that does not end with a backslash, or a single character that escapes nothing. -/
theorem plainText_gives (hrest : r.source.slice s.place segment.stop = c :: cs)
    (hmark : r.mode = .full → isRunMark c = false) (hpair : r.mode = .full → c = '\\' → cs.head? ≠ some '\\')
    (htakes : ∀ stop, s.place < stop → stop = s.place + (plainRun s.nesting.inHead s.nesting.inBody 0 (c :: cs)).1 →
      ((plainText r.env s (r.site s segment) c).overflow.isSome = true → deep) → deep ∨ r.TakesPlain s.place stop) :
    Gives deep r segment s (plainText r.env s (r.site s segment) c) := by
  have hchar := (Source.of_slice_cons hrest).2
  have hbound := plainRun_le s.nesting.inHead s.nesting.inBody 0 (c :: cs)
  have hlen := r.source.length_slice (i := s.place) hs.stop_le
  rw [hrest] at hlen
  have hsite : (r.site s segment).rest = c :: cs := hrest
  unfold plainText at htakes ⊢
  rw [hsite] at htakes ⊢
  dsimp only [Reading.env_source] at htakes ⊢
  split
  · -- a run
    rename_i hpos
    rw [if_pos hpos] at htakes
    obtain ⟨hparts, hplace, hsegments⟩ := openBraces_same (plainRun s.nesting.inHead s.nesting.inBody 0 (c :: cs)).2 s
    have hlast := fun d => plainRun_last (c := d) hpos
    generalize (plainRun s.nesting.inHead s.nesting.inBody 0 (c :: cs)).1 = n at *
    have hstop : s.place + n ≤ segment.stop := by omega
    obtain ⟨e, he⟩ : ∃ e, r.source.chars[s.place + (n - 1)]? = some e :=
      ⟨_, Array.getElem?_eq_getElem (show s.place + (n - 1) < r.source.size by have := hs.stop_le; omega)⟩
    have hordinary := ordinary_of_trigger (hlast e (by rw [← hrest, Source.getElem?_slice (by omega), he]))
    have he' : r.source.chars[s.place + n - 1]? = some e := by rw [Nat.add_sub_assoc hpos]; exact he
    refine ⟨fun _ hoverflow => ?_, .inl ⟨hsegments, ?_⟩⟩
    · show PartsMade deep r (.done (leafOf r.source .text (openBraces _ s).place _) :: (openBraces _ s).parts)
      rw [hparts, hplace]
      refine hs.parts.push (q := .done _) (Made.text (.one (?_ : Piece deep r segment _ _)))
      refine .of_last hs.mem ⟨hs.start_le, by omega, hstop⟩ he' hordinary.1 hordinary.2 ?_
      exact (htakes _ (by omega) rfl hoverflow).imp id .inl
    · exact .behind (by show 0 < s.place + n; omega) (by
        show r.source.chars[s.place + n - 1]? ≠ _
        rw [he']
        exact fun heq => hordinary.2 (Option.some.inj heq))
  · -- a single character
    rename_i hnone
    have hnext : ∀ d, s.place + 1 < segment.stop → r.source.chars[s.place + 1]? = some d → cs.head? = some d := by
      intro d hlt hd
      rw [← r.source.slice_tail hrest, Source.head?_slice hlt]
      exact hd
    have hescape : ∀ d, s.place + 1 < segment.stop → c = '\\' → r.source.chars[s.place + 1]? = some d →
        isIntroducer d = false := by
      rintro d hlt rfl hd
      obtain ⟨rest, rfl⟩ := List.head?_eq_some_iff.mp (hnext d hlt hd)
      exact plainRun_pair (Nat.eq_zero_of_not_pos hnone) d rest rfl
    refine Gives.node hs.parts (fun _ => .text (.one (?_ : Piece deep r segment _ _))) rfl rfl ?_
    · refine ⟨hs.mem, ⟨hs.start_le, Nat.lt_succ_self _, hs.lt⟩, fun hfull d hd _ hsame => ?_, fun d hlt hslash hd => ?_,
        .inr (.inr (.inr (.single _ _)))⟩
      · obtain rfl := Option.some.inj (hchar.symm.trans hsame)
        exact absurd ((hmark hfull).symm.trans hd) Bool.false_ne_true
      · exact hescape d hlt (Option.some.inj (hchar.symm.trans hslash)) hd
    · show Fresh _ _ _ (s.place + 1)
      by_cases hslash : c = '\\'
      · intro d hlt hd hmeans
        rcases hmeans with hintro | ⟨hfull, rfl⟩
        · exact absurd ((hescape d hlt hslash hd).symm.trans hintro) Bool.false_ne_true
        · exact absurd (hnext _ hlt hd) (hpair hfull hslash)
      · exact .of_last fun hback => hslash (Option.some.inj (hchar.symm.trans hback))

end Rules

end ComponentMarkup.Markup
