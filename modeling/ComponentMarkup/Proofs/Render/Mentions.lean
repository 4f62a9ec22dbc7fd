import ComponentMarkup.Proofs.Render.ImportedNames
import Mathlib.Data.List.DropRight

/-!
# What a program mentions

An expression mentions a variable by its name.  In script that was copied, a word is mentioned that stands for itself
and not behind a dot, where it would name a member.  Script is written down token by token, so trimming it, or leaving
out the comma at its end, takes no word away.  The words in the substitutions of a template string are not told apart
from its text.

* `Code.HasWord`, `Expr.Mentions`, `Code.Mentions` — what script and what an expression mentions;
* `IsComponentName` — names that script mentions only as identifiers;
* `Code.CommasAlone` — script in which a comma at the end is a token of its own;
* `mentions_pushToken`, `mentions_trim`, `mentions_dropComma` — what script mentions after it is changed.
-/

namespace ComponentMarkup.Text

open ComponentMarkup.Script

variable {cs ws : List Char}

/-! ## White space around a text -/

theorem trimEnd_append_white (h : White ws) : trimEnd (cs ++ ws) = trimEnd cs := by
  rw [trimEnd, trimEnd, List.reverse_append, List.dropWhile_append_of_pos fun c hc => h c (List.mem_reverse.mp hc)]

theorem trim_append_white (h : White ws) : trim (cs ++ ws) = trim cs := by
  unfold trim trimStart
  rw [List.dropWhile_append]
  split
  · rename_i hnone
    have hws : ws.dropWhile isWhitespace = [] := List.dropWhile_eq_nil_iff.mpr h
    rw [hws, List.isEmpty_iff.mp hnone]
  · exact trimEnd_append_white h

theorem trim_white (h : White ws) : trim ws = [] := by
  have htrim : trim ([] ++ ws) = trim [] := trim_append_white h
  exact htrim

theorem trim_trimStart (cs : List Char) : trim (trimStart cs) = trim cs := by
  unfold trim trimStart
  rw [List.dropWhile_idempotent]

theorem trim_trimEnd (cs : List Char) : trim (trimEnd cs) = trim cs := by
  obtain ⟨back, hback, hwhite, -⟩ := Program.trimEnd_text cs
  have htrim : trim (trimEnd cs ++ back) = trim (trimEnd cs) := trim_append_white hwhite
  rw [← hback] at htrim
  exact htrim.symm

/-- A text whose last character is no white space keeps its end. -/
theorem trimEnd_eq_self {d : Char} (hlast : cs.getLast? = some d) (hd : isWhitespace d = false) : trimEnd cs = cs := by
  rw [← List.head?_reverse] at hlast
  rw [trimEnd]
  cases hback : cs.reverse with
  | nil =>
      rw [hback] at hlast
      exact absurd hlast (Option.some_ne_none d).symm
  | cons e es =>
      rw [hback] at hlast
      obtain rfl := Option.some.inj hlast
      rw [List.dropWhile_cons_of_neg (by simp [hd]), ← hback, List.reverse_reverse]

/-- A text without white space at its ends is trimmed already. -/
theorem trim_eq_self {c d : Char} (hfirst : cs.head? = some c) (hc : isWhitespace c = false)
    (hlast : cs.getLast? = some d) (hd : isWhitespace d = false) : trim cs = cs := by
  have hstart : trimStart cs = cs := by
    cases cs with
    | nil => rfl
    | cons e es =>
        obtain rfl := Option.some.inj hfirst
        exact List.dropWhile_cons_of_neg (by simp [hc])
  rw [trim, hstart, trimEnd_eq_self hlast hd]

end ComponentMarkup.Text

namespace ComponentMarkup.Program

open ComponentMarkup.Text ComponentMarkup.Script

/-! ## Mentions -/

/-- A word stands in script, apart from white space around it, and names no member: it does not stand behind a dot. -/
def Code.HasWord (name : String) : (behindDot : Bool) → Code → Prop
  | _, [] => False
  | behindDot, .text t o :: code =>
    (behindDot = false ∧ Text.trim t.toList = name.toList) ∨ Code.HasWord name (Code.endsInDot [.text t o]) code
  | _, .expr _ :: code => Code.HasWord name false code

/-- An expression mentions a variable: it is the variable, the word stands in its script, or an expression in it
mentions the variable. -/
inductive Expr.Mentions (name : String) : Expr → Prop where
  | ident {o : Option Nat} : Expr.Mentions name (.mk o (.ident name))
  | word {o : Option Nat} {form : Form} {code : Code} (mem : code ∈ form.codes) (word : code.HasWord name false) :
      Expr.Mentions name (.mk o form)
  | inside {o : Option Nat} {form : Form} {e : Expr} (mem : e ∈ form.exprs) (rest : Expr.Mentions name e) :
      Expr.Mentions name (.mk o form)

/-- Script mentions a variable: as a word, or in an expression in it. -/
def Code.Mentions (name : String) (code : Code) : Prop :=
  code.HasWord name false ∨ ∃ e ∈ code.exprs, e.Mentions name

/-- A member of an object mentions a variable. -/
def Member.Mentions (name : String) (member : Member) : Prop :=
  (∃ code ∈ member.codes, code.HasWord name false) ∨ ∃ e ∈ member.exprs, e.Mentions name

variable {name : String} {o : Option Nat} {e : Expr} {code : Code}

theorem mentions_mk {form : Form} : (Expr.mk o form).Mentions name ↔
    form = .ident name ∨ (∃ code ∈ form.codes, code.HasWord name false) ∨ ∃ e ∈ form.exprs, e.Mentions name := by
  constructor
  · intro h
    cases h with
    | ident => exact .inl rfl
    | word mem word => exact .inr (.inl ⟨_, mem, word⟩)
    | inside mem rest => exact .inr (.inr ⟨_, mem, rest⟩)
  · rintro (rfl | ⟨code, mem, word⟩ | ⟨e, mem, rest⟩)
    · exact .ident
    · exact .word mem word
    · exact .inside mem rest

/-- Where an expression stems from does not matter. -/
@[simp] theorem mentions_located {place : Nat} : (e.located place).Mentions name ↔ e.Mentions name := by
  cases e
  rw [Expr.located, mentions_mk, mentions_mk]
  rfl

@[simp] theorem not_mentions_null : ¬ Expr.null.Mentions name := by
  simp [Expr.null, Expr.bare, mentions_mk, Form.exprs]

@[simp] theorem not_mentions_bool (b : Bool) : ¬ (Expr.bool b).Mentions name := by
  simp [Expr.bool, Expr.bare, mentions_mk, Form.exprs]

@[simp] theorem not_mentions_str (s : String) : ¬ (Expr.str s).Mentions name := by
  simp [Expr.str, Expr.bare, mentions_mk, Form.exprs]

@[simp] theorem mentions_ident {other : String} : (Expr.ident other).Mentions name ↔ other = name := by
  simp [Expr.ident, Expr.bare, mentions_mk, Form.exprs]

@[simp] theorem mentions_index {number : Nat} : (Expr.bare (.index e number)).Mentions name ↔ e.Mentions name := by
  simp [Expr.bare, mentions_mk, Form.exprs]

@[simp] theorem mentions_array {elems : List Elem} :
    (Expr.array elems).Mentions name ↔ ∃ elem ∈ elems, elem.expr.Mentions name := by
  simp [Expr.array, Expr.bare, mentions_mk, Form.exprs]

@[simp] theorem mentions_call {callee : Expr} {arguments : List Elem} : (Expr.call callee arguments).Mentions name ↔
    callee.Mentions name ∨ ∃ elem ∈ arguments, elem.expr.Mentions name := by
  simp [Expr.call, Expr.bare, mentions_mk, Form.exprs]

@[simp] theorem mentions_object {members : List Member} :
    (Expr.object members).Mentions name ↔ ∃ member ∈ members, member.Mentions name := by
  simp only [Expr.object, Expr.bare, mentions_mk, Form.codes, Form.exprs, Member.Mentions, List.mem_flatMap]
  aesop

@[simp] theorem mentions_code : (Expr.bare (.code code)).Mentions name ↔ code.Mentions name := by
  simp [Expr.bare, mentions_mk, Form.exprs, Code.Mentions]

@[simp] theorem mentions_scope {statements : List Code} {body : Expr} :
    (Expr.bare (.scope statements body)).Mentions name ↔
      (∃ code ∈ statements, code.Mentions name) ∨ body.Mentions name := by
  simp only [Expr.bare, mentions_mk, Form.codes, Form.exprs, Code.Mentions, List.mem_cons, List.mem_flatMap]
  aesop

@[simp] theorem mentions_pair {key : String} : (Member.pair key e).Mentions name ↔ e.Mentions name := by
  simp [Member.Mentions, Member.codes, Member.exprs]

@[simp] theorem mentions_memberCode : (Member.code code).Mentions name ↔ code.Mentions name := by
  simp [Member.Mentions, Member.codes, Member.exprs, Code.Mentions]

/-! ## Words of copied script -/

/-- A name that components may have: it starts like a word, and means nothing else. -/
structure IsComponentName (name : String) : Prop where
  start : ∃ c, name.toList.head? = some c ∧ isWordStart c = true
  unreserved : reservedWord? name = none
  ne_factory : Expr.factoryName ≠ name
  ne_fragment : Expr.fragmentName ≠ name

/-- What does not start like a word is no such name. -/
theorem IsComponentName.ne {cs : List Char} (h : IsComponentName name)
    (hcs : ∀ c, cs.head? = some c → isWordStart c = false) : cs ≠ name.toList := by
  rintro rfl
  obtain ⟨c, hc, hstart⟩ := h.start
  exact absurd ((hcs c hc).symm.trans hstart) Bool.false_ne_true

theorem IsComponentName.ne_nil (h : IsComponentName name) : [] ≠ name.toList :=
  h.ne fun c hc => absurd hc (Option.not_mem_none c)

variable {piece : Piece} {more : Code} {behindDot : Bool}

theorem hasWord_cons : Code.HasWord name behindDot (piece :: code) ↔
    Code.HasWord name behindDot [piece] ∨ Code.HasWord name (Code.endsInDot [piece]) code := by
  cases piece with
  | text t o => simp [Code.HasWord]
  | expr e => simp [Code.HasWord, Code.endsInDot]

theorem hasWord_cons_append : Code.HasWord name behindDot (piece :: code ++ more) ↔
    Code.HasWord name behindDot (piece :: code) ∨ Code.HasWord name (Code.endsInDot (piece :: code)) more := by
  induction code generalizing piece behindDot with
  | nil => exact hasWord_cons
  | cons next code ih =>
      have hends : Code.endsInDot (piece :: next :: code) = Code.endsInDot (next :: code) := by
        cases piece <;> rfl
      rw [List.cons_append, hasWord_cons, ih, hends, ← or_assoc, ← hasWord_cons]

/-- What stands behind script stands behind a dot if the script ends in one. -/
theorem hasWord_append : Code.HasWord name false (code ++ more) ↔
    Code.HasWord name false code ∨ Code.HasWord name code.endsInDot more := by
  cases code with
  | nil => simp [Code.HasWord, Code.endsInDot]
  | cons piece code => exact hasWord_cons_append

/-- White space at the end of a text does not hide a dot. -/
theorem endsInDot_append_white {t blanks : String} (h : White blanks.toList) :
    Code.endsInDot [.text (t ++ blanks) o] = Code.endsInDot [.text t o] := by
  have hdrop : (t ++ blanks).toList.reverse.dropWhile isWhitespace = t.toList.reverse.dropWhile isWhitespace := by
    rw [String.toList_append, List.reverse_append,
      List.dropWhile_append_of_pos fun c hc => h c (List.mem_reverse.mp hc)]
  simp only [Code.endsInDot, hdrop]

/-- A text of white space does not end in a dot. -/
theorem endsInDot_white {t : String} (h : White t.toList) : Code.endsInDot [.text t o] = false := by
  have hdrop : t.toList.reverse.dropWhile isWhitespace = [] :=
    List.dropWhile_eq_nil_iff.mpr fun c hc => h c (List.mem_reverse.mp hc)
  simp [Code.endsInDot, hdrop]

/-- What holds no dots makes no spread of the dots in front of it. -/
theorem take_spread {xs back : List Char} (hne : xs ≠ []) (hback : ∀ c ∈ back, c ≠ '.') :
    (xs ++ back).take 3 = ['.', '.', '.'] ↔ xs.take 3 = ['.', '.', '.'] := by
  match xs, hne with
  | [a], _ =>
      cases back with
      | nil => exact Iff.rfl
      | cons b back => simp [hback b List.mem_cons_self]
  | [a, b], _ =>
      cases back with
      | nil => exact Iff.rfl
      | cons c back => simp [hback c List.mem_cons_self]
  | a :: b :: c :: cs, _ => simp

/-- White space at the start of a text makes no spread of a dot. -/
theorem endsInDot_trimStart {t : String} (h : Text.trimStart t.toList ≠ []) :
    Code.endsInDot [.text (String.ofList (Text.trimStart t.toList)) o] = Code.endsInDot [.text t o] := by
  obtain ⟨front, hfront, hwhite⟩ := trimStart_text t.toList
  have hsolid : ¬ ((Text.trimStart t.toList).reverse.dropWhile isWhitespace).isEmpty = true := by
    intro hnone
    have hall := List.dropWhile_eq_nil_iff.mp (List.isEmpty_iff.mp hnone)
    have hhead := List.head?_dropWhile_not isWhitespace t.toList
    obtain ⟨c, cs, hcs⟩ := List.exists_cons_of_ne_nil h
    have hcs' : t.toList.dropWhile isWhitespace = c :: cs := hcs
    rw [hcs', List.head?_cons] at hhead
    have hc := hall c (List.mem_reverse.mpr (hcs ▸ List.mem_cons_self))
    simp [hc] at hhead
  have hdrop : t.toList.reverse.dropWhile isWhitespace =
      (Text.trimStart t.toList).reverse.dropWhile isWhitespace ++ front.reverse := by
    conv_lhs => rw [hfront, List.reverse_append, List.dropWhile_append, if_neg hsolid]
  have hback : ∀ c ∈ front.reverse, c ≠ '.' := by
    rintro c hc rfl
    exact absurd (hwhite '.' (List.mem_reverse.mp hc)) (by decide)
  have hne : (Text.trimStart t.toList).reverse.dropWhile isWhitespace ≠ [] := fun hnil =>
    hsolid (List.isEmpty_iff.mpr hnil)
  have hspread := take_spread hne hback
  have hhead : (_ ++ front.reverse).head? = _ := List.head?_append_of_ne_nil _ hne
  simp only [Code.endsInDot, String.toList_ofList, hdrop, List.head?_take, bne, hhead, beq_eq_decide, hspread]

theorem hasWord_pushText (hname : IsComponentName name) {blanks : String} (hblanks : White blanks.toList) :
    Code.HasWord name behindDot (code.pushText blanks) ↔ Code.HasWord name behindDot code := by
  fun_induction Code.pushText code blanks generalizing behindDot with
  | case1 blanks => simp [Code.HasWord, trim_white hblanks, hname.ne_nil]
  | case2 t o blanks => simp only [Code.HasWord, String.toList_append, trim_append_white hblanks]
  | case3 piece code blanks _ ih => rw [hasWord_cons, ih hblanks, ← hasWord_cons]

theorem hasWord_trimEnd (hname : IsComponentName name) :
    Code.HasWord name behindDot code.trimEnd ↔ Code.HasWord name behindDot code := by
  induction code generalizing behindDot with
  | nil => exact Iff.rfl
  | cons piece code ih =>
      by_cases hnil : Code.trimEnd code = []
      · cases piece with
        | text t o =>
            have hnone : ∀ b, ¬ Code.HasWord name b code := fun b hword => by
              have hno := ih.mpr hword
              rw [hnil] at hno
              exact hno
            rw [Code.trimEnd_text hnil]
            split
            · rename_i hempty
              have htrim : Text.trim t.toList = [] := by
                rw [← trim_trimEnd, List.isEmpty_iff.mp hempty]
                rfl
              simp [Code.HasWord, htrim, hname.ne_nil, hnone]
            · simp [Code.HasWord, trim_trimEnd, hnone]
        | expr e => rw [Code.trimEnd_kept (.inr ⟨e, rfl⟩), hasWord_cons, ih, ← hasWord_cons]
      · rw [Code.trimEnd_kept (.inl hnil), hasWord_cons, ih, ← hasWord_cons]

theorem hasWord_trimStart (hname : IsComponentName name) :
    Code.HasWord name false code.trimStart ↔ Code.HasWord name false code := by
  fun_induction Code.trimStart code with
  | case1 t o code rest hempty ih =>
      have hwhite : White t.toList := List.dropWhile_eq_nil_iff.mp (List.isEmpty_iff.mp hempty)
      simp [ih, Code.HasWord, trim_white hwhite, hname.ne_nil, endsInDot_white hwhite]
  | case2 t o code rest hsome =>
      have hne : Text.trimStart t.toList ≠ [] := fun hnil => hsome (List.isEmpty_iff.mpr hnil)
      simp only [Code.HasWord, rest, String.toList_ofList, trim_trimStart, endsInDot_trimStart hne]
  | case3 code _ => exact Iff.rfl

theorem hasWord_trim (hname : IsComponentName name) :
    Code.HasWord name false code.trim ↔ Code.HasWord name false code := by
  rw [Code.trim, hasWord_trimStart hname, hasWord_trimEnd hname]

/-- Blank script has no words. -/
theorem not_hasWord_blank (hname : IsComponentName name) (h : code.isBlank = true) :
    ¬ Code.HasWord name false code := by
  induction code with
  | nil => exact fun hword => hword
  | cons piece code ih =>
      rw [Code.isBlank, List.all_cons] at h
      obtain ⟨hpiece, hothers⟩ := Bool.and_eq_true_iff.mp h
      cases piece with
      | expr e => exact absurd hpiece Bool.false_ne_true
      | text t o =>
          have hwhite : White t.toList := List.all_eq_true.mp hpiece
          simp [Code.HasWord, trim_white hwhite, hname.ne_nil, endsInDot_white hwhite, ih hothers]

/-! ## The comma at the end -/

/-- A piece of script that ends in a comma is one, apart from white space around it. -/
def Code.CommasAlone (code : Code) : Prop :=
  ∀ t o, .text t o ∈ code → (Text.trimEnd t.toList).getLast? = some ',' → Text.trim t.toList = [',']

namespace Code.CommasAlone

theorem nil : Code.CommasAlone [] :=
  fun _ _ hmem => absurd hmem List.not_mem_nil

theorem append (h : code.CommasAlone) (hmore : more.CommasAlone) : Code.CommasAlone (code ++ more) :=
  fun t o hmem => (List.mem_append.mp hmem).elim (h t o) (hmore t o)

theorem expr (e : Expr) : Code.CommasAlone [.expr e] :=
  fun _ _ hmem => absurd (List.mem_singleton.mp hmem) Piece.noConfusion

theorem head (h : Code.CommasAlone (piece :: code)) : Code.CommasAlone [piece] :=
  fun t o hmem => h t o (List.mem_singleton.mp hmem ▸ List.mem_cons_self)

theorem tail (h : Code.CommasAlone (piece :: code)) : code.CommasAlone :=
  fun t o hmem => h t o (List.mem_cons_of_mem _ hmem)

theorem cons (hpiece : Code.CommasAlone [piece]) (h : code.CommasAlone) : Code.CommasAlone (piece :: code) :=
  hpiece.append h

/-- A text instead of another one. -/
theorem text {t t' : String} (h : Code.CommasAlone [.text t o]) (hend : Text.trimEnd t'.toList = Text.trimEnd t.toList)
    (htrim : Text.trim t'.toList = Text.trim t.toList) : Code.CommasAlone [.text t' o] := by
  intro s o' hmem hlast
  obtain ⟨rfl, rfl⟩ := Piece.text.inj (List.mem_singleton.mp hmem)
  rw [htrim]
  exact h t o' (List.mem_singleton_self _) (hend ▸ hlast)

theorem white {t : String} (h : White t.toList) : Code.CommasAlone [.text t o] := by
  intro s o' hmem hlast
  obtain ⟨rfl, rfl⟩ := Piece.text.inj (List.mem_singleton.mp hmem)
  have hnone : Text.trimEnd ([] ++ s.toList) = Text.trimEnd [] := trimEnd_append_white h
  rw [List.nil_append] at hnone
  rw [hnone] at hlast
  exact absurd hlast (Option.some_ne_none ',').symm

theorem pushText (h : code.CommasAlone) {blanks : String} (hblanks : White blanks.toList) :
    (code.pushText blanks).CommasAlone := by
  fun_induction Code.pushText code blanks with
  | case1 blanks => exact white hblanks
  | case2 t o blanks =>
      refine h.text ?_ ?_
      · rw [String.toList_append, trimEnd_append_white hblanks]
      · rw [String.toList_append, trim_append_white hblanks]
  | case3 piece code blanks _ ih => exact h.head.cons (ih h.tail hblanks)

theorem trimEnd (h : code.CommasAlone) : code.trimEnd.CommasAlone := by
  induction code with
  | nil => exact h
  | cons piece code ih =>
      by_cases hnil : Code.trimEnd code = []
      · cases piece with
        | text t o =>
            rw [Code.trimEnd_text hnil]
            split
            · exact nil
            · refine h.head.text ?_ ?_
              · rw [String.toList_ofList, Text.trimEnd, Text.trimEnd, List.reverse_reverse, List.dropWhile_idempotent]
              · rw [String.toList_ofList, trim_trimEnd]
        | expr e =>
            rw [Code.trimEnd_kept (.inr ⟨e, rfl⟩)]
            exact (expr e).cons (ih h.tail)
      · rw [Code.trimEnd_kept (.inl hnil)]
        exact h.head.cons (ih h.tail)

theorem trimStart (h : code.CommasAlone) : code.trimStart.CommasAlone := by
  fun_induction Code.trimStart code with
  | case1 t o code rest hempty ih => exact ih h.tail
  | case2 t o code rest hsome =>
      refine cons (fun s o' hmem hlast => ?_) h.tail
      obtain ⟨rfl, rfl⟩ := Piece.text.inj (List.mem_singleton.mp hmem)
      rw [String.toList_ofList] at hlast ⊢
      rw [trim_trimStart]
      refine h t o' List.mem_cons_self ?_
      -- what is in front of the comma does not matter for what is behind it
      obtain ⟨front, hfront, -⟩ := trimStart_text t.toList
      obtain ⟨back, hback, hwhite, -⟩ := Program.trimEnd_text (Text.trimStart t.toList)
      have hne : Text.trimEnd (Text.trimStart t.toList) ≠ [] := fun hnil => by
        rw [hnil] at hlast
        exact absurd hlast (Option.some_ne_none ',').symm
      have hcomma : (front ++ Text.trimEnd (Text.trimStart t.toList)).getLast? = some ',' := by
        rw [List.getLast?_append_of_ne_nil _ hne]
        exact hlast
      rw [hfront, hback, ← List.append_assoc, trimEnd_append_white hwhite, trimEnd_eq_self hcomma (by decide)]
      exact hcomma
  | case3 code _ => exact h

theorem trim (h : code.CommasAlone) : code.trim.CommasAlone :=
  h.trimEnd.trimStart

end Code.CommasAlone

/-- Leaving out a comma at the end takes no word away. -/
theorem hasWord_dropComma (hname : IsComponentName name) (h : code.CommasAlone) :
    Code.HasWord name behindDot code.dropComma ↔ Code.HasWord name behindDot code := by
  fun_induction Code.dropComma code generalizing behindDot with
  | case1 => exact Iff.rfl
  | case2 t o hlast =>
      have hcomma : t.toList.getLast? = some ',' := beq_iff_eq.mp hlast
      have htrim : Text.trim t.toList = [','] := by
        refine h t o (List.mem_singleton_self _) ?_
        rw [trimEnd_eq_self hcomma (by decide)]
        exact hcomma
      have hsole : Text.trim t.toList ≠ name.toList := by
        rw [htrim]
        refine hname.ne fun c hc => ?_
        obtain rfl := Option.some.inj hc
        decide +kernel
      -- nothing but white space stands in front of the comma
      obtain ⟨front, hfront, hwhite⟩ := trimStart_text t.toList
      have hne : Text.trimStart t.toList ≠ [] := fun hnil => by
        rw [Text.trim, hnil] at htrim
        exact absurd htrim (by decide)
      have hrest : Text.trimStart t.toList = [','] := by
        rw [hfront, List.getLast?_append_of_ne_nil _ hne] at hcomma
        rwa [Text.trim, trimEnd_eq_self hcomma (by decide)] at htrim
      have hfront : t.toList.dropLast = front := by rw [hfront, hrest, List.dropLast_concat]
      simp [Code.HasWord, hsole, hfront, trim_white hwhite, hname.ne_nil]
  | case3 t o hlast => exact Iff.rfl
  | case4 piece code _ ih => rw [hasWord_cons, ih h.tail, ← hasWord_cons]

/-! ## Mentions of copied script -/

theorem mentions_pushToken {t : String} {place : Nat} : (code.pushToken t place).Mentions name ↔
    code.Mentions name ∨ code.endsInDot = false ∧ Text.trim t.toList = name.toList := by
  rw [Code.Mentions, exprs_pushToken, Code.pushToken, hasWord_append, Code.Mentions]
  simp only [Code.HasWord, or_false]
  exact or_right_comm

theorem mentions_pushExpr : Code.Mentions name (code ++ [.expr e]) ↔ code.Mentions name ∨ e.Mentions name := by
  rw [Code.Mentions, exprs_append, hasWord_append, Code.Mentions]
  simp [Code.HasWord, or_and_right, exists_or, or_assoc]

theorem mentions_pushText (hname : IsComponentName name) {blanks : String} (hblanks : White blanks.toList) :
    (code.pushText blanks).Mentions name ↔ code.Mentions name := by
  rw [Code.Mentions, exprs_pushText, hasWord_pushText hname hblanks, Code.Mentions]

theorem mentions_trimEnd (hname : IsComponentName name) : code.trimEnd.Mentions name ↔ code.Mentions name := by
  rw [Code.Mentions, exprs_trimEnd, hasWord_trimEnd hname, Code.Mentions]

theorem mentions_trim (hname : IsComponentName name) : code.trim.Mentions name ↔ code.Mentions name := by
  rw [Code.Mentions, exprs_trim, hasWord_trim hname, Code.Mentions]

theorem mentions_dropComma (hname : IsComponentName name) (h : code.CommasAlone) :
    code.dropComma.Mentions name ↔ code.Mentions name := by
  rw [Code.Mentions, exprs_dropComma, hasWord_dropComma hname h, Code.Mentions]

/-- Blank script mentions nothing. -/
theorem not_mentions_blank (hname : IsComponentName name) (h : code.isBlank = true) : ¬ code.Mentions name := by
  have hexprs : code.exprs = [] := by
    refine List.filterMap_eq_nil_iff.mpr fun piece hpiece => ?_
    have hblank := List.all_eq_true.mp h piece hpiece
    cases piece with
    | text t o => rfl
    | expr e => exact absurd hblank Bool.false_ne_true
  rw [Code.Mentions, hexprs]
  exact fun hmentions => hmentions.elim (not_hasWord_blank hname h) fun ⟨_, he, _⟩ => List.not_mem_nil he

end ComponentMarkup.Program
