import ComponentMarkup.Proofs.Program.Literals
import ComponentMarkup.Proofs.Render.SourceMaps

/-!
# The text of a document in its program

A program that is made for debugging exports the text of its document as a string.  The string is written as a
literal, and a literal reads back as the text it was written for, so nothing of the document is lost.

* `moduleLayout_source` — where a module exports the text of its document;
* `literals_readBack` — literals hold no open quotes and no line ends, are one token, and denote their texts; so does
  the one that a program exports.
-/

namespace ComponentMarkup.Program

open ComponentMarkup.Render

variable {settings : Settings} {needs : Needs} {text : String} {expr : Expr}

/-- A module that is made for debugging has its exports right before the document. -/
theorem moduleLayout_debug (h : settings.debugExports = true) : ∃ earlier later,
    moduleLayout settings needs text expr =
      earlier ++ .text (debugText (importedModules needs).zipIdx text) :: .text "export default " :: later := by
  refine ⟨.mark 0 :: .text (headText settings needs) :: statementLayouts needs.imports ++
    .text (String.join ((importedModules needs).zipIdx.map wholeImport)) :: statementLayouts needs.exports,
    expr.layout ++ [.text ";\n"], ?_⟩
  simp only [moduleLayout, h, if_pos, List.append_assoc, List.cons_append]

theorem chunkText_text (t : String) (chunks : List Chunk) : chunkText (.text t :: chunks) = t ++ chunkText chunks := by
  simp [chunkText]

/-- Among these exports is the text of the document. -/
theorem moduleLayout_source (h : settings.debugExports = true) :
    ∃ front rest, chunkText (moduleLayout settings needs text expr) =
      front ++ "\x7d;\nexport let source = " ++ literal text ++ ";\n" ++ "export default " ++ rest := by
  obtain ⟨earlier, later, hlayout⟩ := @moduleLayout_debug settings needs text expr h
  refine ⟨chunkText earlier ++ "export let imports = \x7b" ++
    ", ".intercalate ((importedModules needs).zipIdx.map exportedModule), chunkText later, ?_⟩
  rw [hlayout, chunkText_append, chunkText_text, chunkText_text]
  unfold debugText
  simp only [String.append_assoc]

end ComponentMarkup.Program

namespace ComponentMarkup

open ComponentMarkup.Text ComponentMarkup.Tree ComponentMarkup.Program ComponentMarkup.Script

/-- **Literals read back.**  Between the two quotes of a literal every quote is escaped and nothing ends a line or is a
control character.  The script lexer takes the literal for one token, wherever it stands.  The units that it denotes
are those of its text, and of no other text.  A program that is made for debugging exports the text of its document by
such a literal. -/
theorem literals_readBack (s : String) :
    (∃ body, (literal s).toList = '\x22' :: (body ++ ['\x22']) ∧
      (∀ before after, body = before ++ '\x22' :: after → slashesAtEnd before % 2 = 1) ∧
      ∀ c ∈ body, isNewline c = false ∧ isControl c = false) ∧
    (∀ (lx : Lexer) after, lx.rest = (literal s).toList ++ after →
      lx.next = (.leaf (.script .str) (literal s) ⟨lx.place, lx.place + (literal s).length⟩,
        lx.advance (literal s).length)) ∧
    (∀ t, stringValue? (literal s).toList = some (utf16 t.toList) ↔ t = s) ∧
    ∀ settings compiled, settings.debugExports = true → compile s settings = .ok compiled →
      ∃ front rest, compiled.program =
        front ++ "\x7d;\nexport let source = " ++ literal s ++ ";\n" ++ "export default " ++ rest := by
  refine ⟨⟨literalBody s, literal_toList s, ?_, ?_⟩, ?_, ?_, ?_⟩
  · intro before after hbody
    exact literalBody_quotes hbody
  · intro c hc
    exact literalBody_visible hc
  · intro lx after hrest
    exact literal_next hrest
  · intro t
    rw [literal_value]
    constructor
    · intro hunits
      exact String.toList_inj.mp (utf16_injective (Option.some.inj hunits)).symm
    · intro heq
      rw [heq]
  · intro settings compiled hdebug hcompile
    obtain ⟨root, nodes, -, -, -, hprogram, -⟩ := compile_inv hcompile
    rw [hprogram]
    exact moduleLayout_source hdebug

/-- The text of a document with quotes and a line end is exported as it is. -/
theorem literals_readBack_quoted : ∃ compiled front rest,
    compile "\"a\"\n" { debugExports := true } = .ok compiled ∧
    compiled.program =
      front ++ "\x7d;\nexport let source = " ++ "\"\\\"a\\\"\\n\"" ++ ";\n" ++ "export default " ++ rest ∧
    stringValue? "\"\\\"a\\\"\\n\"".toList = some (utf16 "\"a\"\n".toList) := by
  have hcompiles : (compile "\"a\"\n" { debugExports := true }).toBool = true := by decide +kernel
  have hliteral : literal "\"a\"\n" = "\"\\\"a\\\"\\n\"" := by decide +kernel
  obtain ⟨-, -, hvalue, hexport⟩ := literals_readBack "\"a\"\n"
  rw [hliteral] at hvalue hexport
  cases hcompile : compile "\"a\"\n" { debugExports := true } with
  | error e =>
      rw [hcompile] at hcompiles
      exact absurd hcompiles Bool.false_ne_true
  | ok compiled =>
      obtain ⟨front, rest, hprogram⟩ := hexport _ compiled rfl hcompile
      exact ⟨compiled, front, rest, rfl, hprogram, (hvalue _).mpr rfl⟩

end ComponentMarkup
