import ComponentMarkup.Proofs.Markup.TableForms

/-!
# Parts of blocks

What rules for blocks make of parts of their lines is formed, and keeps them up to idle places.

* `splitFence_append`, `itemLines_taken`, `linesAfter?_split` — lines are taken from the front;
* `keeps_attributeHead`, `keeps_attributeValue`, `keeps_itemFront`, `unquoted_page` — attributes, items, quotations;
* `keeps_upTo`, `componentLine_form`, `componentBody_form` — the ends and bodies of components;
* `mathContent_form`, `heading_holds` — formulas and headings.
-/

namespace ComponentMarkup.Markup

open ComponentMarkup.Text ComponentMarkup.Tree

variable {src : Source} {quoted : Prop} {line : Span} {later : List Span} {lo hi : Nat}

/-! ## Lines that belong together -/

/-- A leaf of an ordinary kind on each of several lines. -/
theorem leaves_formed {kind : MarkupKind} (hkind : kind.isOrdinary = true) (lines : List Span)
    (first last : Span → Nat) : Each (Formed src quoted) (lines.map fun l => leafOf src kind (first l) (last l)) := by
  intro n hn
  obtain ⟨l, _, rfl⟩ := List.mem_map.mp hn
  exact .leafOf hkind

theorem bodyLeaf_formed {kind : MarkupKind} (hkind : kind.isOrdinary = true) (body : List Span) :
    Each (Formed src quoted) (bodyLeaf src kind body) := by
  unfold bodyLeaf
  split
  · exact .single (.leafOf hkind)
  · exact .nil

/-- A fenced body, the line that closes it and the lines after it make up all lines. -/
theorem splitFence_append {closes : Span → Bool} {lines body rest : List Span} {close : Option Span}
    (h : splitFence closes lines = (body, close, rest)) : lines = (body ++ close.toList) ++ rest := by
  rw [splitFence_eq] at h
  obtain ⟨rfl, hmore⟩ := Prod.mk.inj h
  obtain ⟨rfl, rfl⟩ := Prod.mk.inj hmore
  have hdrop : (lines.dropWhile fun l => !closes l).head?.toList ++ (lines.dropWhile fun l => !closes l).tail =
      lines.dropWhile fun l => !closes l := by
    cases lines.dropWhile fun l => !closes l with
    | nil => rfl
    | cons next later => rfl
  rw [List.append_assoc, hdrop, List.takeWhile_append_dropWhile]

/-- The lines of a list item lose indentation only, and the lines after them are left. -/
theorem itemLines_taken (src : Source) (column : Nat) (goesOn : Bool) (lines : List Span) :
    ∃ taken, lines = taken ++ (itemLines src column goesOn lines).2 ∧
      (itemLines src column goesOn lines).1 = taken.map (strip src column) := by
  induction lines generalizing goesOn with
  | nil => exact ⟨[], rfl, rfl⟩
  | cons line lines ih =>
      have hcons : ∀ goesOn, ∃ taken, line :: lines = taken ++ (itemLines src column goesOn lines).2 ∧
          strip src column line :: (itemLines src column goesOn lines).1 = taken.map (strip src column) := by
        intro goesOn
        obtain ⟨taken, hsplit, hlines⟩ := ih goesOn
        exact ⟨line :: taken, congrArg (line :: ·) hsplit, congrArg (strip src column line :: ·) hlines⟩
      unfold itemLines
      split
      · split
        · exact ⟨[], rfl, rfl⟩
        · rename_i taken rest _ hitem
          have hblank := hcons false
          rw [hitem] at hblank
          exact hblank
      · split
        · exact hcons true
        · rename_i hshallow
          split
          · -- the line has less indentation than would be taken off
            have hstrip : (⟨contentStart src line, line.stop⟩ : Span) = strip src column line := by
              rw [strip, contentStart, Nat.min_eq_left (Nat.le_of_not_le hshallow)]
            rw [hstrip]
            exact hcons true
          · exact ⟨[], rfl, rfl⟩

/-- The lines after the first one on which a place lies are the last ones. -/
theorem linesAfter?_split {place : Nat} {lines rest : List Span} (h : linesAfter? place lines = some rest) :
    ∃ before l, lines = before ++ l :: rest ∧ l.start ≤ place ∧ place ≤ l.stop := by
  induction lines with
  | nil => exact absurd h (by simp [linesAfter?])
  | cons line lines ih =>
      unfold linesAfter? at h
      split at h
      · rename_i hin
        obtain rfl := Option.some.inj h
        rw [Bool.and_eq_true, decide_eq_true_eq, decide_eq_true_eq] at hin
        exact ⟨[], line, rfl, hin⟩
      · obtain ⟨before, l, rfl, hbounds⟩ := ih h
        exact ⟨line :: before, l, rfl, hbounds⟩

/-- Behind the mark of an attribute stands a blank. -/
theorem attributeKey?_blank {cs : List Char} {n : Nat} (h : attributeKey? cs = some n) :
    ∃ rest, cs = '|' :: ' ' :: rest := by
  unfold attributeKey? at h
  split at h
  · exact ⟨_, rfl⟩
  · exact absurd h (by simp)

/-- The mark of an attribute, its key and its colon. -/
def attributeHead (src : Source) (start width : Nat) : List Node :=
  [leafOf src .attributeMark start (start + 1), leafOf src .attributeKey (start + 2) (start + 2 + width),
    leafOf src .colon (start + 2 + width) (start + 2 + width + 1)]

theorem attributeHead_formed (src : Source) (start width : Nat) :
    Each (Formed src quoted) (attributeHead src start width) :=
  ((Each.nil.cons (.leafOf rfl)).cons (.leafOf rfl)).cons (.leafOf rfl)

/-- Only a blank behind the mark is left out. -/
theorem keeps_attributeHead {start stop : Nat} {rest : List Char} (width : Nat)
    (h : src.slice start stop = '|' :: ' ' :: rest) :
    Keeps src quoted [⟨start, start + 2 + width + 1⟩] ((attributeHead src start width).map Node.span) := by
  have hblank : src.slice (start + 1) (start + 1 + 1) = [' '] :=
    Source.slice_prefix (show _ = [' '] ++ rest from src.slice_tail h)
  have hwhite : Keeps src quoted [⟨start + 1, start + 2⟩] ((attributeHead src start width).map Node.span) := by
    refine .white fun c hc => ?_
    rw [hblank, List.mem_singleton] at hc
    rw [hc]
    rfl
  have hmark : Keeps src quoted [⟨start, start + 1⟩] ((attributeHead src start width).map Node.span) :=
    .leaf .attributeMark List.mem_cons_self
  have hkey : Keeps src quoted [⟨start + 2, start + 2 + width⟩] ((attributeHead src start width).map Node.span) :=
    .leaf .attributeKey (List.mem_cons_of_mem _ List.mem_cons_self)
  have hcolon : Keeps src quoted [⟨start + 2 + width, start + 2 + width + 1⟩]
      ((attributeHead src start width).map Node.span) :=
    .leaf .colon (List.mem_cons_of_mem _ (List.mem_cons_of_mem _ List.mem_cons_self))
  exact hmark.join (hwhite.join (hkey.join hcolon))

/-- The value of an attribute on lines of its own. -/
def attributeValue (src : Source) (columns : Nat) (taken : List Span) : List Node :=
  match taken.find? fun l => !isBlankLine src l, taken.getLast? with
  | some first, some last => [leafOf src .attributeValue (first.start + columns) last.stop]
  | _, _ => []

theorem attributeValue_formed (columns : Nat) (taken : List Span) :
    Each (Formed src quoted) (attributeValue src columns taken) := by
  unfold attributeValue
  split
  · exact .single (.leafOf rfl)
  · exact .nil

/-- The value of an attribute starts on the first of its lines that is not blank, behind the indentation. -/
theorem keeps_attributeValue (quoted : Prop) {columns : Nat} {taken : List Span} (h : Lines lo hi taken)
    (hdeep : ∀ l ∈ taken, isBlankLine src l = false → columns ≤ indentOf src l) :
    Keeps src quoted taken ((attributeValue src columns taken).map Node.span) := by
  cases hfirst : taken.find? fun l => !isBlankLine src l with
  | none => exact .each fun l hl => keeps_blankLine (by simpa using List.find?_eq_none.mp hfirst l hl)
  | some first =>
      obtain ⟨hsome, before, after, rfl, hbefore⟩ := List.find?_eq_some_iff_append.mp hfirst
      have hcolumns := hdeep first (List.mem_append_right _ List.mem_cons_self) (by simpa using hsome)
      have hrest := h.split.2
      have hlast : (before ++ first :: after).getLast? = some ((first :: after).getLast (List.cons_ne_nil _ _)) := by
        rw [List.getLast?_append_of_ne_nil _ (List.cons_ne_nil first after),
          List.getLast?_eq_some_getLast (List.cons_ne_nil first after)]
      have hstop : ((first :: after).getLast (List.cons_ne_nil _ _)).stop = lastStop first.stop after := by
        rw [← lastStop_cons lo, lastStop, List.getLast?_eq_some_getLast (List.cons_ne_nil first after)]
        rfl
      unfold attributeValue
      rw [hfirst, hlast]
      dsimp only
      rw [hstop]
      refine .append (.each fun l hl => keeps_blankLine (by simpa using hbefore l hl)) (.cons ?_ (.each fun l hl => ?_))
      · have hindent : ∀ nodes, Keeps src quoted [⟨first.start, first.start + columns⟩] nodes := fun nodes =>
          .idle fun p hfrom hto => isIdle_of_white fun c hc => isWhitespace_of_isBlank
            (Source.of_runLength hfrom (Nat.lt_of_lt_of_le hto (Nat.add_le_add_left hcolumns _)) hc)
        exact (hindent _).join (.node List.mem_cons_self (Nat.le_refl _) hrest.2.2.lastStop_bounds.1)
      · obtain ⟨hfrom, _, hto⟩ := hrest.2.2.narrow.mem hl
        have hindent : first.start + indentOf src first ≤ first.stop :=
          Source.runLength_slice_le src isBlank hrest.2.1
        exact .part List.mem_cons_self (by exact Nat.le_trans (Nat.add_le_add_left hcolumns _) (hindent.trans hfrom)) hto

/-- At most a blank stands behind a task box. -/
theorem keeps_taskBox {content stop : Nat} {inner : List Span} (h : hasTaskBox (src.slice content stop) = true) :
    Keeps src quoted [⟨content + 3, min (content + 4) stop⟩] inner := by
  refine .idle fun p hfrom hto => isIdle_of_white fun c hc => isWhitespace_of_isBlank ?_
  obtain rfl : p = content + 3 := by omega
  have hends := ((Bool.and_eq_true _ _).mp h).2
  rw [src.slice_drop] at hends
  rw [endsOrBlank, Source.head?_slice (by omega), hc] at hends
  exact hends

/-- The marker of an item and its task box, with the content anywhere behind the blanks after the marker. -/
theorem keeps_itemFront (src : Source) (quoted : Prop) (line : Span) {marker content : Nat}
    (hblanks : ∀ p, marker ≤ p → p < content → ∀ c, src.chars[p]? = some c → isBlank c = true) :
    Keeps src quoted [⟨contentStart src line,
        if hasTaskBox (src.slice content line.stop) then min (content + 4) line.stop else content⟩]
      ((leafOf src .listMarker (contentStart src line) marker ::
        if hasTaskBox (src.slice content line.stop) then [leafOf src .taskMarker content (content + 3)]
        else []).map Node.span) := by
  have hmarker : ∀ nodes, Keeps src quoted [⟨contentStart src line, content⟩]
      ((leafOf src .listMarker (contentStart src line) marker :: nodes).map Node.span) := fun nodes =>
    .join (.leaf .listMarker List.mem_cons_self) (.idle fun p hfrom hto => isIdle_of_white fun c hc =>
      isWhitespace_of_isBlank (hblanks p hfrom hto c hc))
  split
  · rename_i hbox
    exact (hmarker _).join (.join (.leaf .taskMarker (List.mem_cons_of_mem _ List.mem_cons_self)) (keeps_taskBox hbox))
  · exact hmarker _

/-- A page of which the first line is narrowed, and the others lose indentation. -/
theorem page_item {lines : List Span} {content : Nat} (column : Nat) (h : Page src quoted (line :: lines))
    (hcontent : contentStart src line ≤ content) :
    Page src quoted (⟨content, line.stop⟩ :: lines.map (strip src column)) := by
  have hstripped : Page src quoted (strip src column line :: lines.map (strip src column)) :=
    h.narrow id fun l _ => ⟨Nat.le_add_right _ _, rfl, strip_margin src quoted column l⟩
  exact hstripped.narrowFirst
    (Nat.le_trans (Nat.add_le_add_left (Nat.min_le_left (indentOf src line) column) line.start) hcontent) rfl

/-- The lines of a quotation lose indentation and the markers of the quotation. -/
theorem unquoted_page {lines : List Span} (h : Page src quoted lines)
    (hmarked : ∀ l ∈ lines, (unindented src l).head? = some '>') :
    Page src True (lines.map (unquote src)) ∧ Keeps src True lines (lines.map (unquote src)) := by
  have hmarks : ∀ l ∈ lines, l.start ≤ (unquote src l).start ∧ (unquote src l).stop = l.stop ∧
      ∀ c ∈ src.slice l.start (unquote src l).start, IsMargin True c := by
    intro l hl
    obtain ⟨hstart, _, hend⟩ := unquote_bounds (hmarked l hl)
    exact ⟨Nat.le_trans (Nat.le_add_right _ _) (Nat.le_of_lt hstart), hend, unquote_margin (hmarked l hl)⟩
  exact ⟨h.narrow (fun _ => trivial) hmarks,
    .map fun l hl => keeps_margin (hmarks l hl).2.2 (hmarks l hl).2.1⟩

/-! ## Components -/

/-- What is left of the line on which a component ends. -/
def ComponentForm.Ends (src : Source) (stop : Nat) (head : Head) : ComponentForm → Prop
  | .verbatim close => restIsBlank src (close + 2) = true
  | .braced close => restIsBlank src (close + 1) = true
  | .composite _ => True
  | .bare => isAllWhite (src.slice head.stop stop) = true

/-- Nothing but white space is left of the line on which a component ends. -/
theorem componentHeader?_ends {start stop : Nat} {head : Head} {form : ComponentForm}
    (h : componentHeader? src start stop = some (head, form)) : form.Ends src stop head := by
  obtain ⟨head', _, hform⟩ := Option.bind_eq_some_iff.mp h
  split at hform
  · obtain ⟨n, _, hrest⟩ := Option.bind_eq_some_iff.mp hform
    dsimp only at hrest
    split at hrest
    · rename_i hblank
      obtain ⟨rfl, rfl⟩ := Prod.mk.inj (Option.some.inj hrest)
      exact hblank
    · exact absurd hrest (by simp)
  · obtain ⟨n, _, hrest⟩ := Option.bind_eq_some_iff.mp hform
    dsimp only at hrest
    split at hrest
    · rename_i hblank
      obtain ⟨rfl, rfl⟩ := Prod.mk.inj (Option.some.inj hrest)
      exact hblank
    · exact absurd hrest (by simp)
  · split at hform
    · exact absurd hform (by simp)
    · split at hform
      · split at hform
        · obtain ⟨rfl, rfl⟩ := Prod.mk.inj (Option.some.inj hform)
          trivial
        · exact absurd hform (by simp)
      · split at hform
        · rename_i hwhite
          obtain ⟨rfl, rfl⟩ := Prod.mk.inj (Option.some.inj hform)
          exact hwhite
        · exact absurd hform (by simp)

/-- The lines up to the one on which a place lies reach up to the place, if nothing is written behind it. -/
theorem keeps_upTo {place : Nat} {rest : List Span} (h : linesAfter? place (line :: later) = some rest)
    (hlines : Lines lo hi (line :: later)) (hhi : hi ≤ src.size) (hpage : Page src quoted (line :: later))
    (hblank : restIsBlank src place = true) : ∃ taken, later = taken ++ rest ∧
      Keeps src quoted (line :: taken) [⟨contentStart src line, place⟩] := by
  obtain ⟨before, l, hsplit, hfrom, hto⟩ := linesAfter?_split h
  have hall : Lines line.start hi (line :: later) := ⟨Nat.le_refl _, hlines.2⟩
  rw [hsplit] at hall hpage
  obtain ⟨hbefore, hlast⟩ := hall.split
  -- the line on which the place lies is left blank behind it
  have hl : Keeps src quoted [l] [⟨l.start, place⟩] := by
    have hbehind : Keeps src quoted [⟨place, l.stop⟩] [⟨l.start, place⟩] := by
      refine keeps_restIsBlank hblank (fun c hc => ?_) (Nat.le_trans hlast.2.2.le hhi)
      obtain ⟨p, hp, hstop, hchar⟩ := Source.mem_slice.mp hc
      exact hpage.clean l (List.mem_append_right _ List.mem_cons_self) c
        (Source.mem_slice.mpr ⟨p, Nat.le_trans hfrom hp, hstop, hchar⟩)
    exact (Keeps.first _ []).join hbehind
  have htaken : Keeps src quoted (before ++ [l]) [⟨line.start, place⟩] := by
    refine .append (.each fun m hm => ?_) (hl.trans (.part (List.mem_singleton_self _) ?_ (Nat.le_refl _)))
    · obtain ⟨hstart, _, hstop⟩ := hbefore.mem hm
      exact .part (List.mem_singleton_self _) hstart (Nat.le_trans hstop (Nat.le_trans hlast.1 hfrom))
    · exact Nat.le_trans hbefore.le hlast.1
  have hindent : Keeps src quoted [⟨line.start, place⟩] [⟨contentStart src line, place⟩] :=
    (keeps_indent src quoted line _).join (.first _ [])
  cases before with
  | nil =>
      obtain ⟨rfl, rfl⟩ := List.cons.inj hsplit
      exact ⟨[], rfl, htaken.trans hindent⟩
  | cons first before =>
      obtain ⟨rfl, rfl⟩ := List.cons.inj hsplit
      refine ⟨before ++ [l], ?_, htaken.trans hindent⟩
      rw [List.append_assoc, List.singleton_append]
      rfl

section Components

variable {env : BlockEnv} (quoted : Prop) (he : env.Forms) (hs : env.Sound)

include he hs

/-- The content of a component on its line leaves out white space only. -/
theorem componentLine_form {start stop : Nat} (hle : start ≤ stop) (hstop : stop ≤ env.source.size) :
    Each (Formed env.source quoted) (componentLine env start stop).value ∧
      Keeps env.source quoted [⟨start, stop⟩] ((componentLine env start stop).value.map Node.span) := by
  have hbound := (trimmed_bounds env.source hle hstop).2
  have hkeeps : ∀ nodes : List Span, ((trimmed env.source start stop).start < (trimmed env.source start stop).stop →
      trimmed env.source start stop ∈ nodes) → Keeps env.source quoted [⟨start, stop⟩] nodes := fun _ => keeps_trimmed
  unfold componentLine
  dsimp only
  generalize trimmed env.source start stop = content at hbound hkeeps
  split
  · rename_i hlt
    have hregion : Region content.start content.stop [content] := Region.single (Nat.le_of_lt hlt)
    have hcontent := Nat.le_trans hbound hstop
    obtain ⟨hnodes, hholds⟩ := he.region quoted hregion hcontent (.singleton _) .full
    have hrun := hs.inline .full hregion hcontent
    refine ⟨.single (.holding (by decide) hnodes hholds.hold), hkeeps _ fun _ => ?_⟩
    exact List.mem_singleton.mpr (hrun.branch_span _ (hrun.ne_nil hlt)).symm
  · rename_i hle
    exact ⟨.nil, hkeeps _ fun hlt => absurd hlt hle⟩

/-- The body of a component is some of the lines after it. -/
theorem componentBody_form (hlines : Lines lo (lastStop line.stop later) (line :: later))
    (hhi : lastStop line.stop later ≤ env.source.size) (hpage : Page env.source quoted (line :: later)) :
    ∃ taken, later = taken ++ (componentBody env line later).value.2 ∧
      Each (Formed env.source quoted) (componentBody env line later).value.1 ∧
      Keeps env.source quoted taken ((componentBody env line later).value.1.map Node.span) := by
  unfold componentBody
  dsimp only
  rcases htaken : takeIndented env.source (indentOf env.source line + bodyIndent) later with ⟨taken, rest⟩
  dsimp only
  obtain ⟨rfl, _⟩ := takeDeeper_spec htaken
  cases taken with
  | nil => exact ⟨[], rfl, .nil, .nil _⟩
  | cons first between =>
      have hlast : (first :: between).getLast? = some ((first :: between).getLast (List.cons_ne_nil _ _)) :=
        List.getLast?_eq_some_getLast _
      have hstop : ((first :: between).getLast (List.cons_ne_nil _ _)).stop = lastStop first.stop between := by
        rw [← lastStop_cons lo, lastStop, hlast]
        rfl
      rw [hlast]
      dsimp only
      rw [hstop, value_bind]
      generalize indentOf env.source line + bodyIndent = columns
      obtain ⟨hbody, hrest⟩ := hlines.2.2.split
      have hbound : lastStop first.stop between ≤ env.source.size := by
        rw [← lastStop_cons line.stop]
        exact Nat.le_trans hrest.le hhi
      have hregion := (Region.of_lines hbody).lines
      have hbodyPage : Page env.source quoted (first :: between) :=
        (show Page env.source quoted ([line] ++ ((first :: between) ++ rest)) from hpage).right.left
      have hmargin : ∀ l ∈ first :: between, l.start ≤ (strip env.source columns l).start ∧
          (strip env.source columns l).stop = l.stop ∧
          ∀ c ∈ env.source.slice l.start (strip env.source columns l).start, IsMargin quoted c := fun l _ =>
        ⟨Nat.le_add_right _ _, rfl, strip_margin env.source quoted columns l⟩
      have hstripped := hregion.map fun l hl =>
        strip_bounds columns (hregion.mem hl).2.1 (Nat.le_trans (hregion.mem hl).2.2 hbound)
      have hspread := hs.nested hstripped hbound
      obtain ⟨hnodes, hkeeps⟩ := he.nested quoted hstripped hbound (hbodyPage.narrow id hmargin)
      have hall : Keeps env.source quoted (first :: between)
          ((env.nested ((first :: between).map (strip env.source columns))).value.map Node.span) :=
        (Keeps.map fun l hl => keeps_margin (hmargin l hl).2.2 rfl).trans hkeeps
      generalize (env.nested ((first :: between).map (strip env.source columns))).value = nodes at hspread hnodes hall ⊢
      cases nodes with
      | nil => exact ⟨first :: between, rfl, .nil, hall⟩
      | cons node nodes =>
          have hinner : Spread env.source node.start (lastStop first.stop between) (node :: nodes) :=
            ⟨Nat.le_refl _, hspread.2⟩
          have hrun := filled_run .blockBody hinner hbound (.inr (List.cons_ne_nil _ _))
          obtain ⟨hstart, hfits, hend⟩ := hrun.of_cons
          have hstretch : Keeps env.source quoted
              [(filled env.source .blockBody node.start (lastStop first.stop between) (node :: nodes)).span]
              (first :: between) := by
            have hpart : Keeps env.source quoted
                [(filled env.source .blockBody node.start (lastStop first.stop between) (node :: nodes)).span]
                [⟨first.start, lastStop first.stop between⟩] :=
              .part (List.mem_singleton_self _) (Nat.le_trans hspread.1 (Nat.le_of_eq hstart.symm))
                (Nat.le_of_eq hend.chain)
            exact hpart.trans (page_keeps hbodyPage)
          exact ⟨first :: between, rfl, .single (filled_formed rfl hfits (hstretch.trans hall) hnodes),
            hall.filled hfits⟩

/-- The content of a formula on lines of its own. -/
def mathContent (env : BlockEnv) (body : List Span) : List Node :=
  let nodes := if body.isEmpty then [] else (env.inline body .template).value
  if nodes.isEmpty then [] else [.markup .mathContent nodes]

/-- The content of a formula keeps the lines between its delimiters. -/
theorem mathContent_form {body : List Span} (hbody : Lines lo hi body) (hhi : hi ≤ env.source.size)
    (hpage : Page env.source quoted body) : Each (Formed env.source quoted) (mathContent env body) ∧
      Keeps env.source quoted body ((mathContent env body).map Node.span) := by
  cases body with
  | nil => exact ⟨.nil, .nil _⟩
  | cons first between =>
      have hregion := Region.of_lines hbody
      have hbound := Nat.le_trans hbody.2.2.lastStop_bounds.2 hhi
      obtain ⟨hnodes, hholds⟩ := he.region quoted hregion hbound hpage.breaks .template
      have hrun := hs.inline .template hregion hbound
      have hlines : Keeps env.source quoted (first :: between) [⟨first.start, lastStop first.stop between⟩] :=
        .each fun l hl => .part (List.mem_singleton_self _) (hregion.lines.mem hl).1 (hregion.lines.mem hl).2.2
      unfold mathContent
      rw [List.isEmpty_cons, if_neg Bool.false_ne_true]
      dsimp only
      generalize (env.inline (first :: between) .template).value = nodes at hnodes hholds hrun ⊢
      cases nodes with
      | nil => exact ⟨.nil, hlines.trans (.run hrun)⟩
      | cons node nodes =>
          have hspan := hrun.branch_span (.markup .mathContent) (List.cons_ne_nil _ _)
          refine ⟨.single (.holding (by decide) hnodes hholds.hold), hlines.trans ?_⟩
          exact .part (List.mem_singleton.mpr hspan.symm) (Nat.le_refl _) (Nat.le_refl _)

end Components

/-- The line of the delimiter of a formula holds nothing else. -/
theorem keeps_mathFence (quoted : Prop) {l : Span} (h : isMathFence (unindented src l) = true) :
    Keeps src quoted [l] [⟨contentStart src l, contentStart src l + 2⟩] := by
  have hrow := keeps_row src quoted l
  have hstop : rowStop src l = contentStart src l + 2 := by
    rw [rowStop, eq_of_beq h]
    rfl
  rwa [hstop] at hrow

/-- What a formula is made of: its delimiters, and its content between them. -/
theorem mathBlock_eq {env : BlockEnv} {result : Limited (Node × List Span)}
    (h : mathBlock env line later = some result) : isMathFence (unindented env.source line) = true ∧
      ∃ body close rest, splitFence (fun l => isMathFence (unindented env.source l)) later = (body, close, rest) ∧
        result.value = (enclosing env.source .mathBlock (contentStart env.source line)
          (leafOf env.source .mathDelim (contentStart env.source line) (contentStart env.source line + 2) ::
            mathContent env body ++ close.toList.map fun l =>
              leafOf env.source .mathDelim (contentStart env.source l) (contentStart env.source l + 2)), rest) := by
  unfold mathBlock at h
  dsimp only at h
  split at h
  · exact absurd h (by simp)
  rename_i hfence
  rw [Bool.not_eq_true', Bool.not_eq_false] at hfence
  rcases hsplit : splitFence (fun l => isMathFence (unindented env.source l)) later with ⟨body, close, rest⟩
  rw [hsplit] at h
  obtain rfl := Option.some.inj h
  refine ⟨hfence, body, close, rest, rfl, ?_⟩
  unfold mathContent
  dsimp only
  split
  · rfl
  · rfl

/-- The content of a heading. -/
def headingContent (env : BlockEnv) (content : Span) : List Node :=
  if content.start < content.stop then (env.inline [content] .full).value else []

/-- What a heading is made of: its mark, and its content behind it. -/
theorem headingBlock_eq {env : BlockEnv} {result : Limited (Node × List Span)}
    (h : headingBlock env line later = some result) : ∃ level, headingLevel? (unindented env.source line) = some level ∧
      result.value = (filled env.source .heading (contentStart env.source line) line.stop
        (leafOf env.source .headingMarker (contentStart env.source line) (contentStart env.source line + level) ::
          headingContent env (trimmed env.source (contentStart env.source line + level) line.stop)), later) := by
  obtain ⟨level, hlevel, h⟩ := Option.bind_eq_some_iff.mp h
  obtain rfl := Option.some.inj h
  refine ⟨level, hlevel, ?_⟩
  unfold headingContent
  dsimp only
  split
  · rfl
  · rfl

/-- The content of a heading: what its line holds behind the mark, without the white space at the ends. -/
def IsHeadingContent (src : Source) (content : Span) (nodes : List Node) : Prop :=
  (content.start < content.stop ∧ Run src.Holds content.start content.stop nodes ∧ IsRegion src .full (nodes.map Node.tag)) ∨
    ¬content.start < content.stop ∧ nodes = []

/-- What a heading reads is its content. -/
theorem headingContent_form {env : BlockEnv} (quoted : Prop) (he : env.Forms) (hs : env.Sound) {content : Span}
    (hstop : content.stop ≤ env.source.size) : Each (Formed env.source quoted) (headingContent env content) ∧
      IsHeadingContent env.source content (headingContent env content) := by
  unfold headingContent
  split
  · rename_i hlt
    have hregion := Region.single (Nat.le_of_lt hlt)
    obtain ⟨hnodes, hholds⟩ := he.region quoted hregion hstop (.singleton _) .full
    exact ⟨hnodes, .inl ⟨hlt, hs.inline .full hregion hstop, hholds⟩⟩
  · rename_i hnone
    exact ⟨.nil, .inr ⟨hnone, rfl⟩⟩

/-- Only white space of a line is outside of the mark and the content of a heading. -/
theorem keeps_heading {start level stop : Nat} {nodes : List Node}
    (h : IsHeadingContent src (trimmed src (start + level) stop) nodes) : Keeps src quoted [⟨start, stop⟩]
      ((leafOf src .headingMarker start (start + level) :: nodes).map Node.span) := by
  have hinner : Keeps src quoted [⟨start + level, stop⟩] (nodes.map Node.span) := by
    rcases h with ⟨_, hrun, _⟩ | ⟨hnone, _⟩
    · exact Keeps.trans (keeps_trimmed fun _ => List.mem_singleton_self _) (.run hrun)
    · exact keeps_trimmed fun hlt => absurd hlt hnone
  exact .join (.leaf .headingMarker List.mem_cons_self) (hinner.among (List.subset_cons_self _ _))

/-- A heading holds its content, with white space around it. -/
theorem heading_holds {start level stop : Nat} {nodes : List Node}
    (h : IsHeadingContent src (trimmed src (start + level) stop) nodes)
    (hbehind : (trimmed src (start + level) stop).start < (trimmed src (start + level) stop).stop →
      start + level ≤ (trimmed src (start + level) stop).start ∧ (trimmed src (start + level) stop).stop ≤ stop) :
    HoldRegion src .full ((fill src start stop (leafOf src .headingMarker start (start + level) :: nodes)).map Node.tag) := by
  have hgap : gap src start (leafOf src .headingMarker start (start + level)).start = [] :=
    if_neg (Nat.lt_irrefl start)
  have hmax : max start (leafOf src .headingMarker start (start + level)).stop = start + level :=
    Nat.max_eq_right (Nat.le_add_right start level)
  have hwhite : ∀ p, start + level ≤ p → p < stop → ¬((trimmed src (start + level) stop).start ≤ p ∧
      p < (trimmed src (start + level) stop).stop) → ∀ c, src.chars[p]? = some c → isWhitespace c = true :=
    fun p hfrom hto hout c hc => trimmed_white hfrom hto hout hc
  generalize trimmed src (start + level) stop = content at h hbehind hwhite
  have hspaces : ∀ gaps : List Node, (∀ n ∈ gaps, n.kind = .markup .space) → ∀ tag ∈ gaps.map Node.tag,
      tag.1 = .markup .headingMarker ∨ tag.1 = .markup .space := by
    intro gaps hgaps tag htag
    obtain ⟨n, hn, rfl⟩ := List.mem_map.mp htag
    exact .inr (hgaps n hn)
  have hmark : (leafOf src .headingMarker start (start + level)).tag.1 = .markup .headingMarker := rfl
  rw [fill, hmax, hgap, List.nil_append]
  rcases h with ⟨hlt, hrun, hregion⟩ | ⟨hnone, rfl⟩
  · obtain ⟨hstart, hend⟩ := hbehind hlt
    rw [fill_run_eq hrun (hrun.ne_nil hlt) hstart]
    refine ⟨(leafOf src .headingMarker start (start + level) :: gap src (start + level) content.start).map Node.tag,
      nodes.map Node.tag, (gap src content.stop stop).map Node.tag, ?_, hregion, fun tag htag => ?_⟩
    · simp only [List.map_cons, List.map_append, List.cons_append]
    · rw [List.map_cons, List.cons_append, List.mem_cons, List.mem_append] at htag
      rcases htag with rfl | htag | htag
      · exact .inl hmark
      · exact hspaces _ (gap_spaces fun p hfrom hto => hwhite p hfrom (by omega) (by omega)) tag htag
      · exact hspaces _ (gap_spaces fun p hfrom hto => hwhite p (by omega) hto (by omega)) tag htag
  · refine ⟨(leafOf src .headingMarker start (start + level) :: fill src (start + level) stop []).map Node.tag, [], [],
      ?_, .inl rfl, fun tag htag => ?_⟩
    · rw [List.append_nil, List.append_nil]
    · rw [List.append_nil, List.map_cons, List.mem_cons] at htag
      rcases htag with rfl | htag
      · exact .inl hmark
      · exact hspaces _ (gap_spaces fun p hfrom hto => hwhite p hfrom hto (by omega)) tag htag

end ComponentMarkup.Markup
