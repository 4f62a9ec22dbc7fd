import ComponentMarkup.Markup.Head
import ComponentMarkup.Proofs.Text.Scan
import ComponentMarkup.Proofs.Tree.Places

/-!
# Command heads tile the text

The nodes of a command head cover the text from its sigil to where the head ends, and so do those of a
verbatim body.

* `Head.read?_run` — the nodes of a head that was read;
* `verbatimNode_run` — the node of a verbatim body.
-/

namespace ComponentMarkup.Markup

open ComponentMarkup.Text ComponentMarkup.Tree

variable {src : Source}

/-- A document branch over a run that is not empty. -/
theorem markup_run (kind : MarkupKind) {a b : Nat} {children : List Node}
    (h : Run src.Holds a b children) (hne : children ≠ []) :
    Run src.Holds a b [Node.markup kind children] := by
  have hspan := h.branch_span (.markup kind) hne
  have hsingle := Run.single (h.branch (.markup kind) hne)
  rwa [Node.start, Node.stop, hspan] at hsingle

/-- A leaf over a stretch, or none if the stretch is empty. -/
theorem optionalLeaf_run {kind : MarkupKind} {a b : Nat} (hab : a ≤ b) (hb : b ≤ src.size) :
    Run src.Holds a b (if a < b then [leafOf src kind a b] else []) := by
  split
  · exact leafOf_run hab hb
  · obtain rfl : a = b := by omega
    exact Run.nil a

/-- A node made of brackets and what stands between them covers all of it. -/
theorem bracketed_run {kind left inside right : MarkupKind} {s : Span} (hle : s.start + 2 ≤ s.stop)
    (hstop : s.stop ≤ src.size) :
    Run src.Holds s.start s.stop [Head.bracketed src kind left inside right s] := by
  have hleft : Run src.Holds s.start (s.start + 1) [leafOf src left s.start (s.start + 1)] :=
    leafOf_run (by omega) (by omega)
  have hinside : Run src.Holds (s.start + 1) (s.stop - 1)
      (if s.start + 1 < s.stop - 1 then [leafOf src inside (s.start + 1) (s.stop - 1)] else []) :=
    optionalLeaf_run (by omega) (by omega)
  have hright : Run src.Holds (s.stop - 1) s.stop [leafOf src right (s.stop - 1) s.stop] :=
    leafOf_run (by omega) hstop
  exact markup_run _ ((hleft.append hinside).append hright) (List.cons_ne_nil _ _)

/-- The node of a verbatim body covers it with its delimiters. -/
theorem verbatimNode_run {opening closing : Nat} (hle : opening + 2 ≤ closing)
    (hstop : closing + 2 ≤ src.size) :
    Run src.Holds opening (closing + 2) [verbatimNode src opening closing] := by
  have hleft : Run src.Holds opening (opening + 2)
      [leafOf src .verbatimDelim opening (opening + 2)] := leafOf_run (by omega) (by omega)
  have hinside : Run src.Holds (opening + 2) closing
      (if opening + 2 < closing then [leafOf src .verbatimText (opening + 2) closing] else []) :=
    optionalLeaf_run hle (by omega)
  have hright : Run src.Holds closing (closing + 2)
      [leafOf src .verbatimDelim closing (closing + 2)] := leafOf_run (by omega) hstop
  exact markup_run _ ((hleft.append hinside).append hright) (List.cons_ne_nil _ _)

namespace Head

/-- The name of a command stands where it is looked for and has some text; a computed one has both its
parentheses. -/
theorem readName?_bound {place : Nat} {cs : List Char} {name : HeadName}
    (h : readName? place cs = some (some name)) :
    name.span.start = place ∧ place < name.span.stop ∧ name.span.stop ≤ place + cs.length ∧
      (∀ s, name = .computed s → s.start + 2 ≤ s.stop) := by
  cases cs with
  | nil => exact absurd h (by simp [readName?])
  | cons c cs =>
      simp only [readName?] at h
      split at h
      · rename_i n hword
        obtain ⟨hpos, hlen⟩ := wordLength?_bound hword
        obtain rfl := Option.some.inj (Option.some.inj h)
        refine ⟨rfl, ?_, ?_, ?_⟩
        · show place < place + n
          omega
        · show place + n ≤ place + (c :: cs).length
          omega
        · exact fun s hs => by cases hs
      · rw [List.length_cons]
        split at h
        · obtain rfl := Option.some.inj (Option.some.inj h)
          refine ⟨rfl, Nat.lt_succ_self place, ?_, ?_⟩
          · show place + 1 ≤ _
            omega
          · exact fun s hs => by cases hs
        · split at h
          · obtain ⟨n, hgroup, hname⟩ := Option.map_eq_some_iff.mp h
            have hlen := groupLength?_lt hgroup
            obtain rfl := Option.some.inj hname
            refine ⟨rfl, ?_, ?_, ?_⟩
            · show place < place + n + 2
              omega
            · show place + n + 2 ≤ _
              omega
            · intro s hs
              obtain rfl := HeadName.computed.inj hs
              show place + 2 ≤ place + n + 2
              omega
          · split at h <;> exact absurd h (by simp)

/-- An attribute list stands where it is looked for and has both its brackets. -/
theorem readAttributes?_bound {place : Nat} {cs : List Char} {s : Span}
    (h : readAttributes? place cs = some s) :
    s.start = place ∧ place + 2 ≤ s.stop ∧ s.stop ≤ place + cs.length := by
  unfold readAttributes? at h
  split at h
  · rename_i cs
    obtain ⟨n, hgroup, rfl⟩ := Option.map_eq_some_iff.mp h
    have hlen := groupLength?_lt hgroup
    rw [List.length_cons]
    refine ⟨rfl, ?_, ?_⟩
    · show place + 2 ≤ place + n + 2
      omega
    · show place + n + 2 ≤ _
      omega
  · exact absurd h (by simp)

/-- The nodes of the name of a command. -/
def nameNodes (src : Source) : Option HeadName → List Node
  | some (.plain s) => [leafOf src .commandName s.start s.stop]
  | some (.computed s) => [bracketed src .dynamicName .leftParen .nameExpr .rightParen s]
  | none => []

/-- The nodes of the attribute list of a command. -/
def attributeNodes (src : Source) : Option Span → List Node
  | some s => [bracketed src .attributeList .leftBracket .inlineAttributes .rightBracket s]
  | none => []

/-- The nodes of a head are its sigil, its name and its attribute list. -/
theorem nodes_eq (h : Head) :
    h.nodes src = [leafOf src .sigil h.sigil.start h.sigil.stop] ++ nameNodes src h.name ++
      attributeNodes src h.attributes := by
  obtain ⟨sigil, name, attributes⟩ := h
  rcases name with _ | _ | _ <;> rcases attributes with _ | _ <;> rfl

/-- The name of a command covers what was read as the name. -/
theorem readName?_run (src : Source) {place : Nat} {cs : List Char} {name : Option HeadName}
    (h : readName? place cs = some name) (hlen : place + cs.length ≤ src.size) :
    place ≤ (name.map fun n => n.span.stop).getD place ∧
      (name.map fun n => n.span.stop).getD place ≤ place + cs.length ∧
      Run src.Holds place ((name.map fun n => n.span.stop).getD place) (nameNodes src name) := by
  cases name with
  | none => exact ⟨Nat.le_refl place, Nat.le_add_right _ _, Run.nil place⟩
  | some name =>
      obtain ⟨hstart, hpos, hstop, hcomputed⟩ := readName?_bound h
      refine ⟨Nat.le_of_lt hpos, hstop, ?_⟩
      cases name with
      | plain s =>
          obtain rfl : s.start = place := hstart
          exact leafOf_run (Nat.le_of_lt hpos) (Nat.le_trans hstop hlen)
      | computed s =>
          obtain rfl : s.start = place := hstart
          exact bracketed_run (hcomputed s rfl) (Nat.le_trans hstop hlen)

/-- The attribute list of a command, if there is one, covers what was read as the list. -/
theorem readAttributes?_run (src : Source) {place : Nat} {cs : List Char} (hlen : place + cs.length ≤ src.size) :
    place ≤ ((readAttributes? place cs).map Span.stop).getD place ∧
      ((readAttributes? place cs).map Span.stop).getD place ≤ place + cs.length ∧
      Run src.Holds place (((readAttributes? place cs).map Span.stop).getD place)
        (attributeNodes src (readAttributes? place cs)) := by
  cases h : readAttributes? place cs with
  | none => exact ⟨Nat.le_refl place, Nat.le_add_right _ _, Run.nil place⟩
  | some s =>
      obtain ⟨rfl, hle, hstop⟩ := readAttributes?_bound h
      refine ⟨?_, hstop, bracketed_run hle (Nat.le_trans hstop hlen)⟩
      show s.start ≤ s.stop
      omega

/-- **A head covers its text.**  The nodes of a head lead from its sigil to where the head ends, and some
of the line stands behind the sigil. -/
theorem read?_run {start width limit : Nat} {head : Head} (h : read? src start width limit = some head)
    (hlimit : limit ≤ src.size) :
    start + width < limit ∧ start + width ≤ head.stop ∧ head.stop ≤ limit ∧
      Run src.Holds start head.stop (head.nodes src) := by
  simp only [read?, Option.bind_eq_bind, Option.bind_eq_some_iff] at h
  obtain ⟨name, hname, h⟩ := h
  have hlt : start + width < limit := by
    cases hrest : src.slice (start + width) limit with
    | nil => exact absurd hname (by simp [hrest, readName?])
    | cons c cs => exact src.lt_of_slice_cons hrest
  have hlen := src.length_slice (i := start + width) hlimit
  obtain ⟨hnext, hnextLimit, hnameRun⟩ := readName?_run src hname (by omega)
  rw [hlen] at hnextLimit
  generalize hnextEq : (name.map fun n => n.span.stop).getD (start + width) = next at *
  have htail := src.length_slice (i := next) hlimit
  have hbound : next + (src.slice next limit).length ≤ src.size := by omega
  obtain ⟨hend, hendLimit, hattributesRun⟩ := readAttributes?_run src hbound
  rw [htail] at hendLimit
  split at h
  · exact absurd h (by simp)
  · obtain rfl := Option.some.inj h
    have hstop : (Head.mk ⟨start, start + width⟩ name
        (readAttributes? next (src.slice next limit))).stop =
          ((readAttributes? next (src.slice next limit)).map Span.stop).getD next := by
      cases readAttributes? next (src.slice next limit) with
      | none =>
          rw [← hnextEq]
          cases name <;> rfl
      | some s => rfl
    rw [hstop, nodes_eq]
    refine ⟨hlt, by omega, by omega, ?_⟩
    have hsigil : Run src.Holds start (start + width)
        [leafOf src .sigil start (start + width)] := leafOf_run (by omega) (by omega)
    exact (hsigil.append hnameRun).append hattributesRun

end Head

end ComponentMarkup.Markup
