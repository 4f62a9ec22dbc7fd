import ComponentMarkup.Program.Simplify
import Mathlib.Data.List.Induction

/-!
# What expressions mean

An expression means a computation of its value, which may read variables and have effects of a monad.  Elements and
arguments are computed from left to right, and spreads are spliced where they stand.  The members of an object are
applied from left to right, and later keys win.  Strings that stand side by side in an array, or among the children
of an element, are as good as their concatenation: such lists are taken with all strings in them joined.  All else
is left to an interpretation, as script is, which means any function of its pieces.

* `Value`, `joined`, `collected` — values, arrays up to concatenation and objects;
* `Interpretation` — what variables, calls and script mean;
* `Expr.meaning` — the meaning of an expression;
* `joined_append_left`, `joined_append_right`, `foldl_collected` — parts of a list may be joined or collected first.
-/

namespace ComponentMarkup.Program

/-- A value that an expression may have. -/
inductive Value (α : Type) where
  /-- The null value. -/
  | null
  /-- A truth value. -/
  | bool (value : Bool)
  /-- A string. -/
  | str (text : String)
  /-- An array, in which no two strings stand side by side. -/
  | array (values : List (Value α))
  /-- An object: its keys in the order in which they were first given, and their values. -/
  | object (entries : List (String × Value α))
  /-- The element factory. -/
  | factory
  /-- Anything else. -/
  | other (value : α)

/-- A value in front of an array.  A string is joined with one that the array starts with. -/
def Value.joinTo {α : Type} : Value α → List (Value α) → List (Value α)
  | .str s, .str t :: values => .str (s ++ t) :: values
  | value, values => value :: values

/-- Values with the strings that stand side by side joined. -/
def joined {α : Type} (values : List (Value α)) : List (Value α) :=
  values.foldr Value.joinTo []

/-- Entries with a value under a key, in the place of the one that was there. -/
def putEntry {β : Type} : List (String × β) → String × β → List (String × β)
  | [], entry => [entry]
  | (key, value) :: entries, entry =>
    if key = entry.1 then entry :: entries else (key, value) :: putEntry entries entry

/-- The entries of an object that is given entries one by one.  Later ones win. -/
def collected {β : Type} (entries : List (String × β)) : List (String × β) :=
  entries.foldl putEntry []

/-- A piece of script: text, or the meaning of an expression in the place of an embedded command. -/
inductive Fragment (m : Type → Type) (Env α : Type) where
  | text (text : String)
  | value (run : Env → m (Value α))

/-- What the meaning of expressions leaves open: variables, functions, calls and script. -/
structure Interpretation (m : Type → Type) (Env α : Type) where
  /-- The value of a variable. -/
  lookup : String → Env → m (Value α)
  /-- The variables with one more. -/
  bind : Env → String → Value α → Env
  /-- The element of a value by its number. -/
  index : Value α → Nat → m (Value α)
  /-- The values that spreading a value that is no array gives. -/
  elements : Value α → m (List (Value α))
  /-- The entries that spreading a value that is no object gives. -/
  entries : Value α → m (List (String × Value α))
  /-- The element that the factory makes. -/
  element : List (Value α) → List (Value α) → m (Value α)
  /-- The result of calling what is not the factory. -/
  call : Value α → List (Value α) → m (Value α)
  /-- A function. -/
  function : (Value α → m (Value α)) → Value α
  /-- The value of script. -/
  script : List (Fragment m Env α) → Env → m (Value α)
  /-- The entries of members that are written as script. -/
  memberScript : List (Fragment m Env α) → Env → m (List (String × Value α))
  /-- The variables after a statement. -/
  statement : List (Fragment m Env α) → Env → m Env

variable {m : Type → Type} [Monad m] {Env α : Type}

/-- One list after the other. -/
def inTurn {β : Type} (first second : m (List β)) : m (List β) := do
  let xs ← first
  let ys ← second
  return xs ++ ys

namespace Interpretation

variable (S : Interpretation m Env α)

/-- The values that a spread stands for. -/
def elementsOf : Value α → m (List (Value α))
  | .array values => pure values
  | value => S.elements value

/-- The entries that a spread stands for. -/
def entriesOf : Value α → m (List (String × Value α))
  | .object entries => pure entries
  | value => S.entries value

/-- A call. -/
def apply : Value α → List (Value α) → m (Value α)
  | .factory, arguments => S.element (arguments.take 2) (joined (arguments.drop 2))
  | callee, arguments => S.call callee arguments

end Interpretation

mutual

/-- The meaning of an expression: its value for given variables. -/
def Expr.meaning (S : Interpretation m Env α) : Expr → Env → m (Value α)
  | .mk _ form, env => form.meaning S env

/-- The meaning of a form. -/
def Form.meaning (S : Interpretation m Env α) : Form → Env → m (Value α)
  | .null, _ => pure .null
  | .bool b, _ => pure (.bool b)
  | .str s, _ => pure (.str s)
  | .ident name, env => if name = Expr.factoryName then pure .factory else S.lookup name env
  | .index e n, env => do S.index (← e.meaning S env) n
  | .array elems, env => do return .array (joined (← elemsMeaning S elems env))
  | .object members, env => do return .object (collected (← membersMeaning S members env))
  | .call callee arguments, env => do
    let function ← callee.meaning S env
    let values ← elemsMeaning S arguments env
    S.apply function values
  | .arrow parameter body, env => pure (S.function fun value => body.meaning S (S.bind env parameter value))
  | .scope statements body, env => do
    let env ← statementsMeaning S statements env
    body.meaning S env
  | .code pieces, env => S.script (codeMeaning S pieces) env

/-- The values of an element. -/
def Elem.meaning (S : Interpretation m Env α) : Elem → Env → m (List (Value α))
  | .item e, env => do return [← e.meaning S env]
  | .spread e, env => do S.elementsOf (← e.meaning S env)

/-- The values of elements, from left to right. -/
def elemsMeaning (S : Interpretation m Env α) : List Elem → Env → m (List (Value α))
  | [], _ => pure []
  | elem :: elems, env => inTurn (elem.meaning S env) (elemsMeaning S elems env)

/-- The entries of a member. -/
def Member.meaning (S : Interpretation m Env α) : Member → Env → m (List (String × Value α))
  | .pair key e, env => do return [(key, ← e.meaning S env)]
  | .spread e, env => do S.entriesOf (← e.meaning S env)
  | .code pieces, env => S.memberScript (codeMeaning S pieces) env

/-- The entries of members, from left to right. -/
def membersMeaning (S : Interpretation m Env α) : List Member → Env → m (List (String × Value α))
  | [], _ => pure []
  | member :: members, env => inTurn (member.meaning S env) (membersMeaning S members env)

/-- The meaning of a piece of script. -/
def Piece.meaning (S : Interpretation m Env α) : Piece → Fragment m Env α
  | .text t _ => .text t
  | .expr e => .value fun env => e.meaning S env

/-- The meaning of the pieces of script. -/
def codeMeaning (S : Interpretation m Env α) : List Piece → List (Fragment m Env α)
  | [] => []
  | piece :: pieces => piece.meaning S :: codeMeaning S pieces

/-- The variables after statements. -/
def statementsMeaning (S : Interpretation m Env α) : List (List Piece) → Env → m Env
  | [], env => pure env
  | code :: statements, env => do
    let env ← S.statement (codeMeaning S code) env
    statementsMeaning S statements env

end

/-! ## Joined strings -/

section Joined

variable {β : Type} {value : Value β} {values rest : List (Value β)}

/-- A value joined to what follows is followed by the same. -/
theorem foldr_joinTo (value : Value β) (values rest : List (Value β)) :
    (value.joinTo values).foldr Value.joinTo rest = value.joinTo (values.foldr Value.joinTo rest) := by
  fun_cases Value.joinTo value values with
  | case1 s t values =>
      -- what stands behind the two strings may start with a string too
      generalize h : values.foldr Value.joinTo rest = others
      simp only [List.foldr_cons, h]
      cases others with
      | nil => rfl
      | cons other others => cases other <;> simp [Value.joinTo, String.append_assoc]
  | case2 value values => rfl

theorem joined_cons (value : Value β) (values : List (Value β)) :
    joined (value :: values) = value.joinTo (joined values) :=
  rfl

theorem joined_append (values rest : List (Value β)) :
    joined (values ++ rest) = values.foldr Value.joinTo (joined rest) :=
  List.foldr_append

theorem joined_append_left (values rest : List (Value β)) : joined (joined values ++ rest) = joined (values ++ rest) := by
  induction values with
  | nil => rfl
  | cons value values ih =>
      calc joined (joined (value :: values) ++ rest)
          = (value.joinTo (joined values)).foldr Value.joinTo (joined rest) := by rw [joined_append, joined_cons]
        _ = value.joinTo (joined (joined values ++ rest)) := by rw [foldr_joinTo, joined_append]
        _ = joined (value :: values ++ rest) := by rw [ih, List.cons_append, joined_cons]

theorem joined_joined (values : List (Value β)) : joined (joined values) = joined values := by
  simpa using joined_append_left values []

theorem joined_append_right (values rest : List (Value β)) : joined (values ++ joined rest) = joined (values ++ rest) := by
  rw [joined_append, joined_joined, ← joined_append]

/-- Two strings side by side are as good as their concatenation. -/
theorem joined_strings (s t : String) (values : List (Value β)) :
    joined (.str s :: .str t :: values) = joined (.str (s ++ t) :: values) :=
  (foldr_joinTo (.str s) (.str t :: values) []).symm

end Joined

/-! ## Entries of objects -/

section Entries

variable {β : Type} {entries others : List (String × β)} {entry other : String × β}

/-- The keys of entries. -/
def keys (entries : List (String × β)) : List String :=
  entries.map Prod.fst

theorem mem_keys_putEntry {key : String} : key ∈ keys (putEntry entries entry) ↔ key ∈ keys entries ∨ key = entry.1 := by
  fun_induction putEntry entries entry with
  | case1 entry => simp [keys]
  | case2 value entries entry => simp only [keys, List.map_cons, List.mem_cons]; tauto
  | case3 key value entries entry h ih => simp only [keys, List.map_cons, List.mem_cons] at ih ⊢; rw [ih, or_assoc]

theorem nodup_keys_putEntry (h : (keys entries).Nodup) : (keys (putEntry entries entry)).Nodup := by
  fun_induction putEntry entries entry with
  | case1 entry => simp [keys]
  | case2 value entries entry => exact h
  | case3 key value entries entry hk ih =>
      have hnot : key ∉ keys (putEntry entries entry) := by
        rw [mem_keys_putEntry]
        rintro (hmem | heq)
        · exact (List.nodup_cons.1 h).1 hmem
        · exact hk heq
      exact List.nodup_cons.2 ⟨hnot, ih (List.nodup_cons.1 h).2⟩

theorem collected_append (entries others : List (String × β)) :
    collected (entries ++ others) = others.foldl putEntry (collected entries) :=
  List.foldl_append

theorem nodup_keys_collected (entries : List (String × β)) : (keys (collected entries)).Nodup := by
  induction entries using List.reverseRecOn with
  | nil => exact List.nodup_nil
  | append_singleton entries entry ih =>
      rw [collected_append]
      exact nodup_keys_putEntry ih

/-- Of two entries of one key the later one stays. -/
theorem putEntry_putEntry_same (h : entry.1 = other.1) : putEntry (putEntry entries entry) other = putEntry entries other := by
  fun_induction putEntry entries entry with
  | case1 entry => simp [putEntry, h]
  | case2 value entries entry => simp [putEntry, h]
  | case3 key value entries entry hk ih =>
      have hk' : key ≠ other.1 := fun he => hk (he.trans h.symm)
      simp [putEntry, hk', ih h]

/-- An entry of a key that is there already may be put before an entry of another key. -/
theorem putEntry_comm (hmem : entry.1 ∈ keys entries) (h : other.1 ≠ entry.1) :
    putEntry (putEntry entries other) entry = putEntry (putEntry entries entry) other := by
  induction entries with
  | nil => simp [keys] at hmem
  | cons first entries ih =>
      obtain ⟨key, value⟩ := first
      by_cases hother : key = other.1
      · have hentry : key ≠ entry.1 := fun he => h (hother.symm.trans he)
        simp [putEntry, hother, h]
      · by_cases hentry : key = entry.1
        · simp [putEntry, hentry, Ne.symm h]
        · have hrest : entry.1 ∈ keys entries := by simpa [keys, Ne.symm hentry] using hmem
          simp [putEntry, hother, hentry, ih hrest]

/-- An entry of a key that is there already may be put before entries of other keys. -/
theorem foldl_putEntry_comm (hmem : entry.1 ∈ keys entries) (hnot : entry.1 ∉ keys others) :
    putEntry (others.foldl putEntry entries) entry = others.foldl putEntry (putEntry entries entry) := by
  induction others generalizing entries with
  | nil => rfl
  | cons other others ih =>
      have hne : other.1 ≠ entry.1 := fun he => hnot (he ▸ List.mem_cons_self)
      have hrest : entry.1 ∉ keys others := fun hin => hnot (List.mem_cons_of_mem _ hin)
      rw [List.foldl_cons, List.foldl_cons, ih (mem_keys_putEntry.2 (.inl hmem)) hrest, putEntry_comm hmem hne]

/-- Giving an object the entries of another and then one more is giving it the entries of the other with that one
put to them. -/
theorem foldl_putEntry (h : (keys others).Nodup) :
    (putEntry others entry).foldl putEntry entries = putEntry (others.foldl putEntry entries) entry := by
  induction others generalizing entries with
  | nil => rfl
  | cons first others ih =>
      obtain ⟨key, value⟩ := first
      have hnodup := List.nodup_cons.1 h
      by_cases hk : key = entry.1
      · have hmem : entry.1 ∈ keys (putEntry entries (key, value)) := mem_keys_putEntry.2 (.inr hk.symm)
        have hnot : entry.1 ∉ keys others := hk ▸ hnodup.1
        rw [List.foldl_cons, foldl_putEntry_comm hmem hnot, putEntry_putEntry_same hk]
        simp [putEntry, hk]
      · simp [putEntry, hk, ih hnodup.2]

theorem foldl_collected (entries others : List (String × β)) :
    (collected others).foldl putEntry entries = others.foldl putEntry entries := by
  induction others using List.reverseRecOn with
  | nil => rfl
  | append_singleton others entry ih =>
      calc (collected (others ++ [entry])).foldl putEntry entries
          = (putEntry (collected others) entry).foldl putEntry entries := by rw [collected_append]; rfl
        _ = putEntry ((collected others).foldl putEntry entries) entry := foldl_putEntry (nodup_keys_collected others)
        _ = (others ++ [entry]).foldl putEntry entries := by rw [ih, List.foldl_append]; rfl

theorem collected_collected (entries : List (String × β)) : collected (collected entries) = collected entries :=
  foldl_collected [] entries

theorem putEntry_of_notMem (h : entry.1 ∉ keys entries) : putEntry entries entry = entries ++ [entry] := by
  induction entries with
  | nil => rfl
  | cons first entries ih =>
      have hk : first.1 ≠ entry.1 := fun he => h (he ▸ List.mem_cons_self)
      simp only [putEntry, hk, if_false, List.cons_append]
      rw [ih fun hin => h (List.mem_cons_of_mem _ hin)]

/-- Entries of different keys are an object's as they are. -/
theorem collected_of_nodup (h : (keys entries).Nodup) : collected entries = entries := by
  induction entries using List.reverseRecOn with
  | nil => rfl
  | append_singleton entries entry ih =>
      simp only [keys, List.map_append, List.nodup_append] at h
      rw [collected_append, ih h.1]
      exact putEntry_of_notMem fun hin => h.2.2 _ hin _ (by simp) rfl

end Entries

end ComponentMarkup.Program
