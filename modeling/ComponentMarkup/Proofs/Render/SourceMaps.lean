import ComponentMarkup.Compile
import ComponentMarkup.Proofs.Program.Mappings
import ComponentMarkup.Proofs.Render.MarkupOrigins
import ComponentMarkup.Proofs.Render.ParsedScripts

/-!
# Source maps of documents

A document is rendered soundly, so every mark of its program is the start of a node of its tree, and every token
that is copied into the program is marked with where it stands.  The source map of the program is made of these
marks.

* `moduleLayout_marks`, `moduleLayout_prints` — the marks of a module, and the pieces of script that it prints;
* `MapsToken` — a copied token is mapped to where it stands in the document, wherever it is printed;
* `compile_sourceMap` — the source map of a program is right.
-/

namespace ComponentMarkup.Program

open ComponentMarkup.Text ComponentMarkup.Render

variable {starts : Nat → Prop} {copied : String → Nat → Prop} {settings : Settings} {needs : Needs} {text : String}
  {expr : Expr} {piece : Piece}

/-- The marks of a module are those of its imports, its exports and its document, and the start of the text. -/
theorem moduleLayout_marks (hzero : starts 0) (himports : MarksFrom starts (statementLayouts needs.imports))
    (hexports : MarksFrom starts (statementLayouts needs.exports)) (hexpr : MarksFrom starts expr.layout) :
    MarksFrom starts (moduleLayout settings needs text expr) := by
  have hhead := MarksFrom.mark hzero (himports.text (headText settings needs))
  exact ((hhead.append (hexports.text _)).append ((hexpr.text _).text _)).append (MarksFrom.nil.text _)

/-- The mappings of a module start at the start of the document. -/
theorem moduleLayout_head :
    (SourceMap.ofChunks (moduleLayout settings needs text expr)).mappings.head? = some ⟨0, 0⟩ := by
  rw [SourceMap.ofChunks_mappings]
  rfl

/-- The imports, the exports and the document of a module are printed in it. -/
theorem moduleLayout_prints
    (h : (∃ code ∈ needs.imports ++ needs.exports, code.Prints piece) ∨ expr.Prints piece) :
    piece.layout <:+: moduleLayout settings needs text expr := by
  rcases h with ⟨code, hcode, hprints⟩ | hprints
  · have hlayout := hprints.layout
    rcases List.mem_append.mp hcode with himport | hexport
    · have hinfix := List.infix_cons (a := .mark 0) (List.infix_cons (a := .text (headText settings needs))
        (hlayout.trans (infix_statement himport)))
      exact List.infix_append_of_infix_left (List.infix_append_of_infix_left (List.infix_append_of_infix_left hinfix))
    · have hinfix := hlayout.trans (infix_statement hexport)
      exact List.infix_append_of_infix_left (List.infix_append_of_infix_left
        (List.infix_append_of_infix_right (List.infix_cons hinfix)))
  · have hinfix := List.infix_cons (a := .text "export default ") hprints.layout
    exact List.infix_append_of_infix_left (List.infix_append_of_infix_right (List.infix_cons hinfix))

end ComponentMarkup.Program

namespace ComponentMarkup

open ComponentMarkup.Text ComponentMarkup.Tree ComponentMarkup.Document ComponentMarkup.Program ComponentMarkup.Render
open ComponentMarkup.Script (White)

variable {text : String} {settings : Settings} {compiled : Compiled} {root : Node} {nodes : List Node}

/-- The chunks that the program of a document is laid out as. -/
def programChunks (settings : Settings) (text : String) (root : Node) (nodes : List Node) : List Chunk :=
  let rendered := renderDocument settings root.height nodes
  moduleLayout settings rendered.needs text (documentExpr rendered.value.1 rendered.value.2)

/-- A piece of script that the program of a document prints: in an import, in an export or in the document. -/
def ProgramPrints (settings : Settings) (root : Node) (nodes : List Node) (piece : Piece) : Prop :=
  let rendered := renderDocument settings root.height nodes
  (∃ code ∈ rendered.needs.imports ++ rendered.needs.exports, code.Prints piece) ∨
    (documentExpr rendered.value.1 rendered.value.2).Prints piece

/-- What is compiled is laid out from the tree of a text without faults. -/
theorem compile_inv (h : compile text settings = .ok compiled) : ∃ root nodes, parse text = .ok root ∧
    root.faults = [] ∧ view? root = some (.sequence nodes) ∧
    compiled.program = chunkText (programChunks settings text root nodes) ∧
    compiled.sourceMap = .ofChunks (programChunks settings text root nodes) := by
  unfold compile at h
  split at h
  · exact absurd h (by simp)
  · rename_i root hparse
    unfold compileTree at h
    split at h
    · rename_i nodes hfaults hview
      dsimp only at h
      split at h
      · cases h
        exact ⟨root, nodes, hparse, hfaults, hview, rfl, rfl⟩
      · exact absurd h (by simp)
    · exact absurd h (by simp)
    · exact absurd h (by simp)

/-! ## Places of the document -/

/-- The nodes of the tree of a text have the text of their stretches. -/
theorem within_holds (h : parse text = .ok root) {n : Node} (hn : Node.Within root n) :
    HoldsBytes text n.span n.fullText := by
  obtain ⟨placed, hplaced, rfl⟩ := parse_placed h
  have hlossless : (placed.inBytes (Source.ofString text).byteOffsets).Lossless text :=
    (parseSource_fits standard_faithful hplaced).1.inBytes
  obtain ⟨depth, hdepth⟩ := hn.outline
  exact (Node.outline_tiles (joinable_bytes text) 0 _ hlossless _ hdepth).1.holds_fullText (joinable_bytes text)

/-- Nodes start between characters. -/
theorem startsIn_boundary (h : parse text = .ok root) {o : Nat} (ho : StartsIn root o) : IsBoundary text o := by
  obtain ⟨n, hn, rfl⟩ := ho
  obtain ⟨before, after, htext, hspan⟩ := within_holds h hn
  exact ⟨before, n.fullText ++ after, by rw [htext, String.append_assoc], congrArg Span.start hspan⟩

/-- A copied token, and the mapping of its piece: the piece is printed as a whole and maps to where the token stands
in the document, wherever it is printed and wherever in it one looks. -/
structure MapsToken (map : SourceMap) (chunks : List Chunk) (text : String) (root : Node) (t : String) (o : Nat) :
    Prop where
  /-- The piece is printed. -/
  printed : [.mark o, .text t] <:+: chunks
  /-- It is a token of the document with white space behind it. -/
  token : ∃ word blanks kind span, t = word ++ blanks ∧ White blanks.toList ∧
    (∃ depth, (depth, .leaf (.script kind) word span) ∈ root.outline 0) ∧
    ∃ before after, text = before ++ word ++ after ∧ before.utf8ByteSize = o
  /-- Where it is printed it is mapped to the token. -/
  mapped : ∀ before after, chunks = before ++ .mark o :: .text t :: after →
    (⟨chunkSize before, o⟩ : Mapping) ∈ map.mappings ∧
      ∀ place, chunkSize before ≤ place → place < chunkSize before + t.utf8ByteSize → map.origin? place = some o

/-- A printed piece that was copied from a token is mapped to it. -/
theorem mapsToken (h : parse text = .ok root) {chunks : List Chunk} {t : String} {o : Nat}
    (hprinted : [.mark o, .text t] <:+: chunks) (hcopied : CopiedFrom (TokenIn root) t o) :
    MapsToken (.ofChunks chunks) chunks text root t o where
  printed := hprinted
  token := by
    obtain ⟨word, blanks, ⟨kind, span, hwithin, rfl, -⟩, hblanks, rfl⟩ := hcopied
    obtain ⟨before, after, htext, hspan⟩ := within_holds h hwithin
    refine ⟨word, blanks, kind, span, rfl, hblanks, hwithin.outline, before, after, ?_, ?_⟩
    · rw [htext, Node.fullText, Node.leaves, List.map_singleton, Node.text]
      simp [String.join]
    · exact (congrArg Span.start hspan).symm
  mapped := by
    rintro before after rfl
    exact ⟨SourceMap.mem_ofChunks before after o t,
      fun place hle hlt => SourceMap.ofChunks_origin? before after o t hle hlt⟩

/-! ## Source maps -/

/-- What is rendered of a document, and the default export made of it, is sound. -/
theorem rendered_sound (h : parse text = .ok root) (hclean : root.faults = [])
    (hview : view? root = some (.sequence nodes)) (settings : Settings) :
    (renderDocument settings root.height nodes).Sound root fun x => SoundExpr root (documentTerm x.1 x.2) :=
  (renderDocument_sound (parse_soundScripts h hclean) settings root.height
    (view?_within .root hview)).weaken fun _ hx => documentTerm_sound hx.1 hx.2

/-- A token that is copied was copied from the start of a node. -/
theorem copiedFrom_starts {t : String} {o : Nat} (h : CopiedFrom (TokenIn root) t o) : StartsIn root o := by
  obtain ⟨_, _, ⟨_, _, hwithin, hstart, _⟩, _, _⟩ := h
  exact ⟨_, hwithin, hstart⟩

/-- The marks of sound statements are right. -/
theorem statements_marks {codes : List Code} (h : ∀ code ∈ codes, SoundCode root code) :
    MarksFrom (StartsIn root) (statementLayouts codes) := by
  refine MarksFrom.statements (fun code hcode t o hmem => copiedFrom_starts ((h code hcode).copies t o hmem)) ?_
  intro e he
  obtain ⟨code, hcode, he⟩ := List.mem_flatMap.mp he
  exact (((h code hcode).exprs e he).imp fun _ hsound => hsound.traced).marksFrom fun _ _ => copiedFrom_starts

/-- The marks of a program are starts of nodes, or the start of the document. -/
theorem programChunks_marks (h : parse text = .ok root) (hclean : root.faults = [])
    (hview : view? root = some (.sequence nodes)) (settings : Settings) :
    MarksFrom (fun o => o = 0 ∨ StartsIn root o) (programChunks settings text root nodes) := by
  have hsound := rendered_sound h hclean hview settings
  have hor : ∀ {chunks}, MarksFrom (StartsIn root) chunks → MarksFrom (fun o => o = 0 ∨ StartsIn root o) chunks :=
    fun hmarks o ho => .inr (hmarks o ho)
  refine moduleLayout_marks (.inl rfl) (hor (statements_marks hsound.imports)) (hor (statements_marks hsound.exports))
    (hor ?_)
  rw [documentExpr_eq]
  exact (simplify_traced (hsound.value.imp fun _ he => he.traced)).marksFrom fun _ _ => copiedFrom_starts

/-- What a program prints with an origin was copied from a token. -/
theorem programPrints_copied (h : parse text = .ok root) (hclean : root.faults = [])
    (hview : view? root = some (.sequence nodes)) {t : String} {o : Nat}
    (hprints : ProgramPrints settings root nodes (.text t (some o))) : CopiedFrom (TokenIn root) t o := by
  have hsound := rendered_sound h hclean hview settings
  rcases hprints with ⟨code, hcode, hprints⟩ | hprints
  · have hcode : SoundCode root code :=
      (List.mem_append.mp hcode).elim (hsound.imports code) (hsound.exports code)
    rcases hprints with hpiece | ⟨e, he, hprints⟩
    · exact hcode.copies t o hpiece
    · exact hprints.traced ((hcode.exprs e he).imp fun _ hsound => hsound.traced)
  · rw [documentExpr_eq] at hprints
    exact hprints.traced (simplify_traced (hsound.value.imp fun _ he => he.traced))

/-- **The source map of a program is right.**  Its mappings are in the order of the program, begin with the starts of
both texts and never repeat each other.  They lie between characters of both texts, at starts of nodes of the
document's tree or at its start, and an encoded source map has a segment for each of them.  Every token that is
copied into the program is mapped to where the document has that token. -/
theorem compile_sourceMap (h : compile text settings = .ok compiled) :
    (compiled.sourceMap.mappings.Pairwise fun a b => a.generated ≤ b.generated) ∧
    compiled.sourceMap.mappings.head? = some ⟨0, 0⟩ ∧
    compiled.sourceMap.mappings.IsChain (· ≠ ·) ∧
    (∀ m ∈ compiled.sourceMap.mappings, IsBoundary compiled.program m.generated ∧ IsBoundary text m.origin) ∧
    (SourceMap.segmentTexts (compiled.sourceMap.encode compiled.program text).toList).length =
      compiled.sourceMap.mappings.length ∧
    ∃ root nodes, parse text = .ok root ∧ view? root = some (.sequence nodes) ∧
      (∀ m ∈ compiled.sourceMap.mappings, m.origin = 0 ∨ ∃ node ∈ root.outline 0, node.2.start = m.origin) ∧
      compiled.program = chunkText (programChunks settings text root nodes) ∧
      ∀ t o, ProgramPrints settings root nodes (.text t (some o)) →
        MapsToken compiled.sourceMap (programChunks settings text root nodes) text root t o := by
  obtain ⟨root, nodes, hparse, hclean, hview, hprogram, hmap⟩ := compile_inv h
  have hmarks := programChunks_marks hparse hclean hview settings
  rw [hmap, hprogram]
  have horigin : ∀ m ∈ (SourceMap.ofChunks (programChunks settings text root nodes)).mappings,
      m.origin = 0 ∨ StartsIn root m.origin := by
    intro m hm
    obtain ⟨before, after, hchunks, -⟩ := SourceMap.ofChunks_mark hm
    exact hmarks m.origin (by rw [hchunks]; exact List.mem_append_right _ List.mem_cons_self)
  have hbounds : ∀ m ∈ (SourceMap.ofChunks (programChunks settings text root nodes)).mappings,
      IsBoundary (chunkText (programChunks settings text root nodes)) m.generated ∧ IsBoundary text m.origin := by
    intro m hm
    obtain ⟨before, after, hchunks, hplace⟩ := SourceMap.ofChunks_mark hm
    refine ⟨⟨chunkText before, chunkText (.mark m.origin :: after), ?_, hplace⟩, ?_⟩
    · rw [hchunks, chunkText_append]
    · rcases horigin m hm with hzero | hstart
      · exact ⟨"", text, String.empty_append.symm, hzero⟩
      · exact startsIn_boundary hparse hstart
  refine ⟨SourceMap.ofChunks_ordered _, moduleLayout_head, SourceMap.ofChunks_distinct _, hbounds,
    SourceMap.segmentTexts_encode hbounds, root, nodes, hparse, hview, ?_, rfl, ?_⟩
  · intro m hm
    refine (horigin m hm).imp_right ?_
    rintro ⟨n, hn, hstart⟩
    obtain ⟨depth, hdepth⟩ := hn.outline
    exact ⟨_, hdepth, hstart⟩
  · intro t o hprints
    have hlayout : (Piece.text t (some o)).layout <:+: programChunks settings text root nodes :=
      moduleLayout_prints hprints
    exact mapsToken hparse hlayout (programPrints_copied hparse hclean hview hprints)

/-- Whether the imports of a document hold a text with an origin. -/
def importsHold (text word : String) (o : Nat) : Bool :=
  match parse text with
  | .error _ => false
  | .ok root =>
    match view? root with
    | some (.sequence nodes) =>
      (renderDocument {} root.height nodes).needs.imports.flatten.any fun piece =>
        match piece with
        | .text t origin => t == word && origin == some o
        | .expr _ => false
    | _ => false

/-- An import is printed, and its first word is mapped to where it stands. -/
theorem compile_sourceMap_import : ∃ compiled root nodes, compile "% import a from 'm'" {} = .ok compiled ∧
    compiled.sourceMap.mappings.head? = some ⟨0, 0⟩ ∧ parse "% import a from 'm'" = .ok root ∧
    view? root = some (.sequence nodes) ∧
    MapsToken compiled.sourceMap (programChunks {} "% import a from 'm'" root nodes) "% import a from 'm'" root
      "import " 2 := by
  have hcompiles : (compile "% import a from 'm'" {}).toBool = true := by decide +kernel
  have hholds : importsHold "% import a from 'm'" "import " 2 = true := by decide +kernel
  cases h : compile "% import a from 'm'" {} with
  | error e =>
      rw [h] at hcompiles
      exact absurd hcompiles Bool.false_ne_true
  | ok compiled =>
      obtain ⟨-, hhead, -, -, -, root, nodes, hparse, hview, -, -, htokens⟩ := compile_sourceMap h
      refine ⟨compiled, root, nodes, rfl, hhead, hparse, hview, htokens _ _ (.inl ?_)⟩
      unfold importsHold at hholds
      rw [hparse] at hholds
      dsimp only at hholds
      rw [hview] at hholds
      obtain ⟨piece, hpiece, hsame⟩ := List.any_eq_true.mp hholds
      obtain ⟨code, hcode, hmem⟩ := List.mem_flatten.mp hpiece
      cases piece with
      | expr e => exact absurd hsame Bool.false_ne_true
      | text t origin =>
          obtain ⟨ht, horigin⟩ := Bool.and_eq_true_iff.mp hsame
          obtain rfl := beq_iff_eq.mp ht
          obtain rfl := beq_iff_eq.mp horigin
          exact ⟨code, List.mem_append_left _ hcode, .inl hmem⟩

end ComponentMarkup
