import ComponentMarkup.Proofs.Markup.Formed
import ComponentMarkup.Proofs.Markup.OpenBodies
import ComponentMarkup.Proofs.Markup.ScanEnds
import Mathlib.Algebra.Group.Nat.Even

/-!
# What a region is read as, place by place

The nodes of inline content are made by rules, and a rule looks at what stands around a place.  `Made` keeps what the
rules saw: the whole runs of characters that marks are, what touches an opening and a closing mark, how many backslashes
stand before the sigil of a command, and the pieces that a text was put together from.

A text is put together from pieces that touch: runs of plain text, single characters and runs of marks that no rule
wanted, and delimiters without partner.

* `Reading` — a region with what it is read with, the states it goes through and the nodes it comes to;
* `Piece`, `Pieces` — the pieces of a text;
* `Made` — a node as the rules make it;
* `PartsMade.settle`, `PartsMade.finishCommand`, `PartsMade.degradeCommand` — the stack of parts hands that on.
-/

namespace ComponentMarkup.Text

/-- How many backslashes stand directly before a place, from `start` on. -/
def slashes (src : Source) (start : Nat) : Nat → Nat
  | 0 => 0
  | p + 1 => if start ≤ p ∧ src.chars[p]? = some '\\' then slashes src start p + 1 else 0

variable {src : Source} {start p : Nat}

theorem slashes_backslash (hp : start ≤ p) (h : src.chars[p]? = some '\\') :
    slashes src start (p + 1) = slashes src start p + 1 :=
  if_pos ⟨hp, h⟩

theorem slashes_other (h : src.chars[p]? ≠ some '\\') : slashes src start (p + 1) = 0 :=
  if_neg fun hand => h hand.2

theorem slashes_self (src : Source) (start : Nat) : slashes src start start = 0 := by
  cases start with
  | zero => rfl
  | succ p => exact if_neg fun hand => absurd hand.1 (Nat.not_succ_le_self p)

end ComponentMarkup.Text

namespace ComponentMarkup.Markup

open ComponentMarkup.Text ComponentMarkup.Tree

/-! ## Readings -/

/-- A region, how many levels of regions it may hold, and which rules are active in it. -/
structure Reading where
  /-- The whole text. -/
  source : Source
  /-- How many levels of regions there may be inside. -/
  levels : Nat
  /-- The stretches of the region. -/
  segments : List Span
  /-- The active rules. -/
  mode : Mode

namespace Reading

variable (r : Reading)

/-- What the region is read with. -/
def env : Env :=
  regionEnv r.source r.levels r.segments r.mode

/-- What the region is read as. -/
def content : Limited (List Node) :=
  inlineNodes r.source r.levels r.segments r.mode

/-- A region inside the region. -/
def inside (inner : Span) (mode : Mode) : Reading :=
  ⟨r.source, r.levels - 1, [inner], mode⟩

/-- A state that the reader of the region goes through. -/
def Reaches (s : State) : Prop :=
  ∃ steps, s = readRegion r.env steps (.start r.segments)

/-- The reader takes a stretch as one run of plain text. -/
def TakesPlain (a b : Nat) : Prop :=
  ∃ s segment later c cs, r.Reaches s ∧ s.segments = segment :: later ∧ s.place = a ∧
    r.source.slice a segment.stop = c :: cs ∧ step r.env s segment later = plainText r.env s ⟨segment, c :: cs⟩ c ∧
    a < b ∧ b = a + (plainRun s.nesting.inHead s.nesting.inBody 0 (c :: cs)).1

/-- The reader takes a stretch as the head of a command that has a body. -/
def OpensCommand (stretch : Span) : Prop :=
  ∃ s d, r.Reaches s ∧ .waiting d ∈ s.parts ∧ d.opener.isCommand = true ∧ d.span = stretch

end Reading

/-! ## Places on a line -/

/-- Characters of which only a whole run is a mark, and no run is left to plain text. -/
def isRunMark (c : Char) : Bool :=
  c == '*' || c == '_' || c == '\x60'

/-- Characters that marks are made of. -/
def isMark (c : Char) : Bool :=
  c == '*' || c == '_' || c == '~'

variable {src : Source} {segment : Span} {mode : Mode} {mark c : Char} {a b p : Nat}

/-- Some text of a line. -/
structure Spot (segment : Span) (a b : Nat) : Prop where
  start_le : segment.start ≤ a
  lt : a < b
  stop_le : b ≤ segment.stop

/-- A whole run of a character, as far as the line goes on behind it. -/
structure WholeRun (src : Source) (segment : Span) (c : Char) (a b : Nat) : Prop where
  spot : Spot segment a b
  chars : ∀ p, a ≤ p → p < b → src.chars[p]? = some c
  ends : b < segment.stop → src.chars[b]? ≠ some c

/-- No run of stars, underscores or backticks goes on behind a place. -/
def EndsRun (src : Source) (segment : Span) (b : Nat) : Prop :=
  ∀ c, isRunMark c = true → b < segment.stop → src.chars[b - 1]? = some c → src.chars[b]? ≠ some c

/-- No backslash before a place escapes an introducer behind it. -/
def EndsEscape (src : Source) (segment : Span) (b : Nat) : Prop :=
  ∀ d, b < segment.stop → src.chars[b - 1]? = some '\\' → src.chars[b]? = some d → isIntroducer d = false

/-- No backslash inside a stretch escapes an introducer inside it. -/
def NoEscape (src : Source) (a b : Nat) : Prop :=
  ∀ p d, a ≤ p → p + 1 < b → src.chars[p]? = some '\\' → src.chars[p + 1]? = some d → isIntroducer d = false

/-- No mark stands in a stretch. -/
def Markless (src : Source) (a b : Nat) : Prop :=
  ∀ p c, a ≤ p → p < b → src.chars[p]? = some c → isMark c = false

/-- What the reader knows at a place: an introducer there, or a backslash where backslashes escape, is not escaped
itself. -/
def Fresh (src : Source) (mode : Mode) (segment : Span) (p : Nat) : Prop :=
  ∀ c, p < segment.stop → src.chars[p]? = some c → isIntroducer c = true ∨ mode = .full ∧ c = '\\' →
    Even (slashes src segment.start p)

/-- A stretch between two characters of words. -/
def BetweenWords (src : Source) (segment : Span) (a b : Nat) : Prop :=
  (∃ c, segment.start < a ∧ src.chars[a - 1]? = some c ∧ isWordy c = true) ∧
    ∃ c, b < segment.stop ∧ src.chars[b]? = some c ∧ isWordy c = true

/-- Marks that may open or close. -/
structure Flanks (src : Source) (segment : Span) (mark : Char) (a b : Nat) : Prop where
  whole : WholeRun src segment mark a b
  apart : mark = '_' → ¬ BetweenWords src segment a b

/-- Marks that may open: content touches them. -/
structure Opens (src : Source) (segment : Span) (mark : Char) (a b : Nat) : Prop extends
    Flanks src segment mark a b where
  next : ∃ c, b < segment.stop ∧ src.chars[b]? = some c ∧ isWhitespace c = false

/-- Marks that may close: content touches them. -/
structure Closes (src : Source) (segment : Span) (mark : Char) (a b : Nat) : Prop extends
    Flanks src segment mark a b where
  previous : ∃ c, segment.start < a ∧ src.chars[a - 1]? = some c ∧ isWhitespace c = false

/-- A region that is the content of a component on its line: a colon or white space stands before it, and it goes on to
the end of the line or to a brace. -/
structure Nested (src : Source) (segment inner : Span) : Prop where
  start_lt : segment.start < inner.start
  lt : inner.start < inner.stop
  stop_le : inner.stop ≤ segment.stop
  before : ∃ c, src.chars[inner.start - 1]? = some c ∧ (c = ':' ∨ isWhitespace c = true)
  behind : inner.stop = segment.stop ∨ src.chars[inner.stop]? = some '}'

/-- A brace of a line. -/
def IsBrace (r : Reading) (a : Nat) : Prop :=
  ∃ segment ∈ r.segments, segment.start ≤ a ∧ a < segment.stop ∧
    (r.source.chars[a]? = some '{' ∨ r.source.chars[a]? = some '}')

/-- A line break: no place of it lies in a stretch of the region. -/
def Gap (r : Reading) (a b : Nat) : Prop :=
  ∀ segment ∈ r.segments, ∀ p, a ≤ p → p < b → ¬ (segment.start ≤ p ∧ p < segment.stop)

/-- A command as it stands on a line. -/
structure CommandAt (r : Reading) (place width : Nat) (head : Head) : Prop where
  pos : 0 < width
  sigil : ∀ p c, place ≤ p → p < place + width → r.source.chars[p]? = some c → isIntroducer c = true ∨ c = '.'
  line : ∃ segment ∈ r.segments, segment.start ≤ place ∧ Fresh r.source r.mode segment place ∧
    Head.read? r.source place width segment.stop = some head

/-! ## Lines inside of lines -/

/-- White space separates words. -/
theorem isWordy_of_isWhitespace (h : isWhitespace c = true) : isWordy c = false := by
  have hlow : ∀ n < 14, 9 ≤ n → isWordy (Char.ofNat n) = false := by decide +kernel
  have hgeneral : ∀ n < 0x200B, 0x2000 ≤ n → isWordy (Char.ofNat n) = false := by
    intro n hn hle
    obtain ⟨k, rfl⟩ := Nat.exists_eq_add_of_le hle
    have hk : ∀ k < 11, isWordy (Char.ofNat (0x2000 + k)) = false := by decide +kernel
    exact hk k (by omega)
  have hothers : ∀ n ∈ [0x20, 0x85, 0xA0, 0x1680, 0x2028, 0x2029, 0x202F, 0x205F, 0x3000],
      isWordy (Char.ofNat n) = false := by decide +kernel
  simp only [isWhitespace, Bool.or_eq_true, Bool.and_eq_true, decide_eq_true_eq, beq_iff_eq] at h
  rw [← Char.ofNat_toNat c]
  generalize c.toNat = n at h ⊢
  by_cases hn : n < 14 ∧ 9 ≤ n
  · exact hlow n hn.1 hn.2
  by_cases hn' : n < 0x200B ∧ 0x2000 ≤ n
  · exact hgeneral n hn'.1 hn'.2
  · refine hothers n ?_
    simp only [List.mem_cons, List.not_mem_nil, or_false]
    omega

namespace Nested

variable {inner : Span}

/-- What stands right before the content of a component is no part of a word. -/
theorem before_plain (h : Nested src segment inner) (hc : src.chars[inner.start - 1]? = some c) :
    isWordy c = false := by
  obtain ⟨d, hd, hplain⟩ := h.before
  obtain rfl := Option.some.inj (hd.symm.trans hc)
  rcases hplain with rfl | hwhite
  · decide +kernel
  · exact isWordy_of_isWhitespace hwhite

/-- What stands right behind the content of a component, if the line goes on there. -/
theorem behind_brace (h : Nested src segment inner) (hlt : inner.stop < segment.stop)
    (hc : src.chars[inner.stop]? = some c) : c = '}' := by
  rcases h.behind with hend | hbrace
  · exact absurd hend (Nat.ne_of_lt hlt)
  · exact Option.some.inj (hc.symm.trans hbrace)

theorem spot (h : Nested src segment inner) (hspot : Spot inner a b) : Spot segment a b :=
  ⟨Nat.le_trans (Nat.le_of_lt h.start_lt) hspot.start_le, hspot.lt, Nat.le_trans hspot.stop_le h.stop_le⟩

/-- A whole run inside a region is one of the line around it. -/
theorem whole (h : Nested src segment inner) (hwhole : WholeRun src inner c a b) (hbrace : c ≠ '}') :
    WholeRun src segment c a b := by
  refine ⟨h.spot hwhole.spot, hwhole.chars, fun hlt heq => ?_⟩
  by_cases hin : b < inner.stop
  · exact hwhole.ends hin heq
  · obtain rfl : b = inner.stop := Nat.le_antisymm hwhole.spot.stop_le (Nat.le_of_not_lt hin)
    exact hbrace (h.behind_brace hlt heq)

/-- Marks inside a region flank as marks of the line around it. -/
theorem flanks (h : Nested src segment inner) (hflanks : Flanks src inner mark a b) (hbrace : mark ≠ '}') :
    Flanks src segment mark a b := by
  refine ⟨h.whole hflanks.whole hbrace, fun hmark hwords => hflanks.apart hmark ?_⟩
  obtain ⟨⟨c, hstart, hc, hword⟩, d, hstop, hd, hword'⟩ := hwords
  have hspot := hflanks.whole.spot
  refine ⟨⟨c, ?_, hc, hword⟩, d, ?_, hd, hword'⟩
  · refine Nat.lt_of_le_of_ne hspot.start_le ?_
    rintro rfl
    exact absurd ((h.before_plain hc).symm.trans hword) Bool.false_ne_true
  · refine Nat.lt_of_le_of_ne hspot.stop_le ?_
    rintro rfl
    obtain rfl := h.behind_brace hstop hd
    exact absurd hword' (by decide +kernel)

theorem opens (h : Nested src segment inner) (hopens : Opens src inner mark a b) (hbrace : mark ≠ '}') :
    Opens src segment mark a b := by
  obtain ⟨c, hlt, hc, hwhite⟩ := hopens.next
  exact ⟨h.flanks hopens.toFlanks hbrace, c, Nat.lt_of_lt_of_le hlt h.stop_le, hc, hwhite⟩

theorem closes (h : Nested src segment inner) (hcloses : Closes src inner mark a b) (hbrace : mark ≠ '}') :
    Closes src segment mark a b := by
  obtain ⟨c, hlt, hc, hwhite⟩ := hcloses.previous
  exact ⟨h.flanks hcloses.toFlanks hbrace, c, Nat.lt_trans h.start_lt hlt, hc, hwhite⟩

end Nested

/-! ## Pieces of text -/

/-- A piece of a text. -/
structure Piece (deep : Prop) (r : Reading) (segment : Span) (a b : Nat) : Prop where
  mem : segment ∈ r.segments
  spot : Spot segment a b
  run : r.mode = .full → EndsRun r.source segment b
  escape : EndsEscape r.source segment b
  origin : deep ∨ r.TakesPlain a b ∨ r.OpensCommand ⟨a, b⟩ ∨ NoEscape r.source a b

/-- Pieces that touch. -/
inductive Pieces (deep : Prop) (r : Reading) : Nat → Nat → Prop where
  | one {segment : Span} {a b : Nat} (piece : Piece deep r segment a b) : Pieces deep r a b
  | more {segment : Span} {a b c : Nat} (piece : Piece deep r segment a b) (pieces : Pieces deep r b c) :
      Pieces deep r a c

variable {deep : Prop} {r : Reading}

theorem Pieces.lt (h : Pieces deep r a b) : a < b := by
  induction h with
  | one piece => exact piece.spot.lt
  | more piece _ ih => exact Nat.lt_trans piece.spot.lt ih

theorem Pieces.append {c : Nat} (h : Pieces deep r a b) (h' : Pieces deep r b c) : Pieces deep r a c := by
  induction h with
  | one piece => exact .more piece h'
  | more piece _ ih => exact .more piece (ih h')

/-- The last piece of a text. -/
theorem Pieces.last (h : Pieces deep r a b) : ∃ segment p, a ≤ p ∧ Piece deep r segment p b := by
  induction h with
  | one piece => exact ⟨_, _, Nat.le_refl _, piece⟩
  | more piece _ ih =>
      obtain ⟨segment, p, hp, hlast⟩ := ih
      exact ⟨segment, p, Nat.le_trans (Nat.le_of_lt piece.spot.lt) hp, hlast⟩

/-- A whole run is a piece of text. -/
theorem WholeRun.piece (h : WholeRun r.source segment c a b) (hmem : segment ∈ r.segments) (hc : c ≠ '\\') :
    Piece deep r segment a b := by
  have hlast : r.source.chars[b - 1]? = some c := by
    have hlt := h.spot.lt
    exact h.chars (b - 1) (by omega) (by omega)
  refine ⟨hmem, h.spot, fun _ d _ hb hd => ?_, fun d _ hslash => ?_, .inr (.inr (.inr ?_))⟩
  · obtain rfl : c = d := Option.some.inj (hlast.symm.trans hd)
    exact h.ends hb
  · exact absurd (Option.some.inj (hlast.symm.trans hslash)) hc
  · intro p d hp hlt hslash
    exact absurd (Option.some.inj ((h.chars p hp (by omega)).symm.trans hslash)) hc

/-- A piece of text that ends with an ordinary character. -/
theorem Piece.of_last (hmem : segment ∈ r.segments) (hspot : Spot segment a b)
    (hlast : r.source.chars[b - 1]? = some c) (hrun : isRunMark c = false) (hslash : c ≠ '\\')
    (horigin : deep ∨ r.TakesPlain a b ∨ r.OpensCommand ⟨a, b⟩ ∨ NoEscape r.source a b) :
    Piece deep r segment a b := by
  refine ⟨hmem, hspot, fun _ d hd _ hchar => ?_, fun d _ hchar => ?_, horigin⟩
  · obtain rfl : c = d := Option.some.inj (hlast.symm.trans hchar)
    exact absurd (hrun.symm.trans hd) Bool.false_ne_true
  · exact absurd (Option.some.inj (hlast.symm.trans hchar)) hslash

/-- A single character holds no escape. -/
theorem NoEscape.single (src : Source) (a : Nat) : NoEscape src a (a + 1) :=
  fun _ _ hp hlt => absurd (Nat.lt_of_succ_lt_succ hlt) (Nat.not_lt.mpr hp)

theorem IsBrace.piece (h : IsBrace r a) : ∃ segment, Piece deep r segment a (a + 1) := by
  obtain ⟨segment, hmem, hstart, hlt, hbrace⟩ := h
  have horigin : deep ∨ r.TakesPlain a (a + 1) ∨ r.OpensCommand ⟨a, a + 1⟩ ∨ NoEscape r.source a (a + 1) :=
    .inr (.inr (.inr (.single r.source a)))
  have hspot : Spot segment a (a + 1) := ⟨hstart, Nat.lt_succ_self a, hlt⟩
  rcases hbrace with hbrace | hbrace
  · exact ⟨segment, .of_last hmem hspot hbrace rfl (by decide) horigin⟩
  · exact ⟨segment, .of_last hmem hspot hbrace rfl (by decide) horigin⟩

/-! ## Nodes -/

end ComponentMarkup.Markup

namespace ComponentMarkup.Tree

/-- Kinds of leaves that may hold any text. -/
def MarkupKind.isFree : MarkupKind → Bool
  | .escape | .lineComment | .codeText | .url | .verbatimText => true
  | _ => false

/-- Kinds of leaves for signs and white space. -/
def MarkupKind.isSign : MarkupKind → Bool
  | .space | .colon | .linkMark | .verbatimDelim => true
  | _ => false

/-- Kinds of commands inside of a line. -/
def MarkupKind.isCommand : MarkupKind → Bool
  | .inlineComponent | .interpolation | .reference => true
  | _ => false

/-- Kinds of nodes that are nothing but what stands in them. -/
def MarkupKind.isWrapper : MarkupKind → Bool
  | .link | .image | .autolink | .contentBlock | .verbatim | .inlineCode => true
  | _ => false

end ComponentMarkup.Tree

namespace ComponentMarkup.Markup

open ComponentMarkup.Text ComponentMarkup.Tree

variable {src : Source} {segment : Span} {mode : Mode} {mark c : Char} {a b p : Nat} {deep : Prop} {r : Reading}

/-- Nodes between marks, the character of the marks, and how many there are. -/
def IsMarked (kind : MarkupKind) (mark : Char) (width : Nat) : Prop :=
  (mark = '*' ∨ mark = '_') ∧ (kind = .emph ∧ width = 1 ∨ kind = .strong ∧ width = 2) ∨
    mark = '~' ∧ kind = .strikethrough ∧ width = 2

/-- **A node as the rules make it**, with what they saw around it. -/
inductive Made (deep : Prop) : Reading → Node → Prop where
  | text {r : Reading} {a b : Nat} (pieces : Pieces deep r a b) : Made deep r (leafOf r.source .text a b)
  | brace {r : Reading} {kind : MarkupKind} {a : Nat} (kinds : kind = .leftBrace ∨ kind = .rightBrace)
      (brace : IsBrace r a) : Made deep r (leafOf r.source kind a (a + 1))
  | run {r : Reading} {kind : MarkupKind} {segment : Span} {c : Char} {a b : Nat} (full : r.mode = .full)
      (kinds : kind = .special ∧ c = '-' ∧ b = a + 3 ∨ kind = .codeMark ∧ c = '\x60') (mem : segment ∈ r.segments)
      (whole : WholeRun r.source segment c a b) : Made deep r (leafOf r.source kind a b)
  | free {r : Reading} {kind : MarkupKind} {a b : Nat} (kinds : kind.isFree = true) :
      Made deep r (leafOf r.source kind a b)
  | sign {r : Reading} {kind : MarkupKind} {a b : Nat} (kinds : kind.isSign = true)
      (markless : Markless r.source a b) : Made deep r (leafOf r.source kind a b)
  | newline {r : Reading} {segment next : Span} (mem : segment ∈ r.segments) (next_mem : next ∈ r.segments)
      (lt : segment.stop < next.start) (gap : Gap r segment.stop next.start) :
      Made deep r (leafOf r.source .newline segment.stop next.start)
  | wrapper {r : Reading} {kind : MarkupKind} {children : List Node} (kinds : kind.isWrapper = true)
      (parts : ∀ n ∈ children, Made deep r n) : Made deep r (.markup kind children)
  | marked {r : Reading} {kind : MarkupKind} {mark : Char} {width a b : Nat} {opening closing : Span}
      {children : List Node} (full : r.mode = .full) (kinds : IsMarked kind mark width)
      (opening_mem : opening ∈ r.segments)
      (opens : Opens r.source opening mark a (a + width)) (closing_mem : closing ∈ r.segments)
      (closes : Closes r.source closing mark b (b + width)) (parts : ∀ n ∈ children, Made deep r n) :
      Made deep r (.markup kind (leafOf r.source .emphMark a (a + width) :: children ++
        [leafOf r.source .emphMark b (b + width)]))
  | command {r : Reading} {kind : MarkupKind} {place width : Nat} {head : Head} {children : List Node}
      (kinds : kind.isCommand = true) (command : CommandAt r place width head) (parts : ∀ n ∈ children, Made deep r n) :
      Made deep r (.markup kind (head.nodes r.source ++ children))
  | line {r : Reading} {segment inner : Span} {children : List Node} (full : r.mode = .full)
      (mem : segment ∈ r.segments) (nested : Nested r.source segment inner)
      (parts : ∀ n ∈ children, Made deep (r.inside inner .full) n)
      (read : deep ∨ children = (r.inside inner .full).content.value) : Made deep r (.markup .lineContent children)
  | formula {r : Reading} {segment : Span} {a b : Nat} {children : List Node} (full : r.mode = .full)
      (mem : segment ∈ r.segments) (opening : WholeRun r.source segment '$' a (a + 1))
      (closing : r.source.chars[b]? = some '$' ∧ b < segment.stop) (lt : a + 1 < b)
      (parts : ∀ n ∈ children, Made deep (r.inside ⟨a + 1, b⟩ .template) n) :
      Made deep r (.markup .mathInline [leafOf r.source .mathDelim a (a + 1), .markup .mathContent children,
        leafOf r.source .mathDelim b (b + 1)])

/-- What a delimiter opens is what stands there. -/
def Opener.Stands (r : Reading) (s : Span) : Opener → Prop
  | .emphasis mark width => r.mode = .full ∧ (mark = '*' ∨ mark = '_') ∧ (width = 1 ∨ width = 2) ∧
      s.stop = s.start + width ∧ ∃ segment ∈ r.segments, Opens r.source segment mark s.start s.stop
  | .strike => r.mode = .full ∧ s.stop = s.start + 2 ∧
      ∃ segment ∈ r.segments, Opens r.source segment '~' s.start s.stop
  | .link _ => Markless r.source s.start s.stop
  | .command kind nodes => kind.isCommand = true ∧
      ∃ width head, CommandAt r s.start width head ∧ nodes = head.nodes r.source
  | .body => s.stop = s.start + 1 ∧ IsBrace r s.start

/-- A part as the rules make it.  A delimiter may become a piece of text. -/
def Part.Made (deep : Prop) (r : Reading) : Part → Prop
  | .done node => Markup.Made deep r node
  | .waiting d => (∃ segment, Piece deep r segment d.span.start d.span.stop) ∧ d.opener.Stands r d.span

/-- Parts as the rules make them. -/
def PartsMade (deep : Prop) (r : Reading) (parts : List Part) : Prop :=
  ∀ part ∈ parts, part.Made deep r

/-! ## The stack of parts -/

@[simp] theorem kind_leafOf (src : Source) (kind : MarkupKind) (a b : Nat) :
    (leafOf src kind a b).kind = .markup kind := rfl

@[simp] theorem kind_markup (kind : MarkupKind) (children : List Node) :
    (Node.markup kind children).kind = .markup kind := rfl

/-- A text is put together from pieces. -/
theorem Made.pieces {n : Node} (h : Made deep r n) (hn : n.kind = .markup .text) :
    ∃ a b, n = leafOf r.source .text a b ∧ Pieces deep r a b := by
  cases h with
  | text pieces => exact ⟨_, _, rfl, pieces⟩
  | _ => simp_all [MarkupKind.isFree, MarkupKind.isSign, MarkupKind.isWrapper, MarkupKind.isCommand, IsMarked]

/-- A leaf for a brace stands on one. -/
theorem Made.isBrace {n : Node} (h : Made deep r n) (hn : n.kind = .markup .leftBrace ∨ n.kind = .markup .rightBrace) :
    ∃ kind a, n = leafOf r.source kind a (a + 1) ∧ IsBrace r a := by
  cases h with
  | brace _ brace => exact ⟨_, _, rfl, brace⟩
  | _ =>
    rcases hn with hn | hn <;>
      simp_all [MarkupKind.isFree, MarkupKind.isSign, MarkupKind.isWrapper, MarkupKind.isCommand, IsMarked]

/-- What stands in a body is made by the rules. -/
theorem Made.body {n : Node} (h : Made deep r n) (hn : n.kind = .markup .contentBlock) :
    Each (Made deep r) n.children := by
  cases h with
  | wrapper _ parts => exact parts
  | _ => simp_all [MarkupKind.isFree, MarkupKind.isSign, MarkupKind.isCommand, IsMarked]

/-- Texts that touch are joined piece by piece. -/
theorem Made.joinText {node : Node} {nodes : List Node} (hnode : Made deep r node)
    (hnodes : Each (Made deep r) nodes) : Each (Made deep r) (joinText node nodes) := by
  unfold Markup.joinText
  split
  · rename_i t s t' s' rest
    split
    · rename_i htouch
      obtain ⟨a, b, heq, hfirst⟩ := hnode.pieces rfl
      obtain ⟨b', c, heq', hsecond⟩ := (hnodes _ List.mem_cons_self).pieces rfl
      obtain ⟨-, rfl, rfl⟩ := Node.leaf.inj heq
      obtain ⟨-, rfl, rfl⟩ := Node.leaf.inj heq'
      obtain rfl : b = b' := htouch
      have htext : r.source.text ⟨a, b⟩ ++ r.source.text ⟨b, c⟩ = r.source.text ⟨a, c⟩ := by
        simp only [Source.text, ← String.ofList_append]
        rw [r.source.slice_append (Nat.le_of_lt hfirst.lt) (Nat.le_of_lt hsecond.lt)]
      refine Each.cons ?_ hnodes.tail
      rw [htext]
      exact .text (hfirst.append hsecond)
    · exact hnodes.cons hnode
  · exact hnodes.cons hnode

theorem Part.Made.node {part : Part} (h : part.Made deep r) : Markup.Made deep r (part.node r.source) := by
  cases part with
  | done node => exact h
  | waiting d =>
      obtain ⟨⟨_, hpiece⟩, -⟩ := h
      exact .text (.one hpiece)

/-- A delimiter that became text. -/
theorem Part.Made.text {d : Delimiter} (h : Part.Made deep r (.waiting d)) :
    Part.Made deep r (.done (leafOf r.source .text d.span.start d.span.stop)) :=
  h.node

/-- A body that loses its braces. -/
theorem Made.unbraced {n : Node} (h : Made deep r n) (hblock : n.isMarkup .contentBlock = true) :
    Each (Made deep r) (unbrace n) := by
  intro m hm
  obtain ⟨child, hchild, rfl⟩ := List.mem_map.mp hm
  have hmade := h.body (beq_iff_eq.mp hblock) child hchild
  split
  · rename_i hbrace
    rw [Bool.or_eq_true, Node.isMarkup, Node.isMarkup, beq_iff_eq, beq_iff_eq] at hbrace
    obtain ⟨kind, a, rfl, hstands⟩ := hmade.isBrace hbrace
    obtain ⟨_, hpiece⟩ : ∃ segment, Piece deep r segment a (a + 1) := hstands.piece
    exact .text (.one hpiece)
  · exact hmade

namespace PartsMade

variable {parts above below : List Part}

theorem push {q : Part} (hpart : q.Made deep r) (h : PartsMade deep r parts) :
    PartsMade deep r (q :: parts) := by
  intro other hother
  rcases List.mem_cons.mp hother with rfl | hother
  · exact hpart
  · exact h other hother

theorem append (h : PartsMade deep r above) (h' : PartsMade deep r below) : PartsMade deep r (above ++ below) := by
  intro part hpart
  rcases List.mem_append.mp hpart with hpart | hpart
  · exact h part hpart
  · exact h' part hpart

theorem found {accept blocks : Opener → Bool} {d : Delimiter} (h : PartsMade deep r parts)
    (hfound : findWaiting? accept blocks parts = some (above, d, below)) :
    PartsMade deep r above ∧ Part.Made deep r (.waiting d) ∧ PartsMade deep r below := by
  obtain ⟨rfl, _⟩ := findWaiting?_spec hfound
  refine ⟨fun part hpart => h part (List.mem_append_left _ hpart), h _ (by simp), ?_⟩
  exact fun part hpart => h part (List.mem_append_right _ (List.mem_cons_of_mem _ hpart))

/-- The start of a body that is found is a brace. -/
theorem lastBody {d : Delimiter} (h : PartsMade deep r parts) (hfound : lastBody? parts = some (above, d, below)) :
    PartsMade deep r above ∧ Markup.Made deep r (leafOf r.source .leftBrace d.span.start d.span.stop) ∧
      PartsMade deep r below := by
  obtain ⟨habove, ⟨-, hstands⟩, hbelow⟩ := h.found hfound
  refine ⟨habove, ?_, hbelow⟩
  have hbody := (findWaiting?_spec hfound).2
  obtain ⟨opener, span, level⟩ := d
  cases opener with
  | body =>
      obtain ⟨hstop, hbrace⟩ : span.stop = span.start + 1 ∧ IsBrace r span.start := hstands
      rw [hstop]
      exact .brace (.inl rfl) hbrace
  | _ => exact absurd hbody Bool.false_ne_true

/-- **The nodes that parts become are made by the rules**, delimiters without partner as pieces of text. -/
theorem settle (h : PartsMade deep r parts) : Each (Made deep r) (settle r.source parts) := by
  have hnodes : Each (Made deep r) (parts.reverse.map (Part.node r.source)) := by
    intro n hn
    obtain ⟨part, hpart, rfl⟩ := List.mem_map.mp hn
    exact (h part (List.mem_reverse.mp hpart)).node
  unfold Markup.settle
  generalize parts.reverse.map (Part.node r.source) = nodes at hnodes
  induction nodes with
  | nil => exact .nil
  | cons node nodes ih => exact Made.joinText (hnodes node List.mem_cons_self) (ih hnodes.tail)

/-- A finished command. -/
theorem finishCommand {s : State} (h : PartsMade deep r s.parts) :
    PartsMade deep r (s.finishCommand r.source).parts := by
  unfold State.finishCommand
  split
  · rename_i above kind head span level below hfound
    obtain ⟨habove, ⟨_, hcommand⟩, hbelow⟩ := h.found hfound
    obtain ⟨hkind, width, head, hcommand, rfl⟩ := hcommand
    exact hbelow.push (.command hkind hcommand habove.settle)
  · exact h

/-- What a command leaves that becomes text. -/
theorem degradeCommand {s : State} (h : PartsMade deep r s.parts) :
    PartsMade deep r (s.degradeCommand r.source).parts := by
  unfold State.degradeCommand
  split
  · exact h
  rename_i above body below hbody
  obtain ⟨habove, hopened, hbelow⟩ := h.found hbody
  split
  · exact h
  rename_i between command rest hcommand
  obtain ⟨hbetween, hhead, hrest⟩ := hbelow.found hcommand
  show PartsMade deep r (above ++ .done _ :: _ ++ .done _ :: rest)
  refine (habove.append (.push hopened.text ?_)).append (.push hhead.text hrest)
  intro part hpart
  obtain ⟨old, hold, hpart⟩ := List.mem_flatMap.mp hpart
  have hmade := hbetween old hold
  cases old with
  | waiting d => exact List.mem_singleton.mp hpart ▸ hmade
  | done node =>
      dsimp only at hpart
      split at hpart
      · rename_i hblock
        obtain ⟨n, hn, rfl⟩ := List.mem_map.mp hpart
        exact Made.unbraced hmade hblock n (List.mem_reverse.mp hn)
      · exact List.mem_singleton.mp hpart ▸ hmade

end PartsMade

end ComponentMarkup.Markup
