/-!
# Settings

What a program is made for: which modules it imports, which names stand for elements, and which components a
document can use without importing them.  Every setting has a default.
-/

namespace ComponentMarkup

namespace Settings

/-- The elements that a component may name directly. -/
def elementNames : List String := [
  "a", "abbr", "address", "article", "aside", "audio", "b", "bdi", "bdo", "blockquote", "br", "button",
  "canvas", "caption", "cite", "code", "col", "colgroup", "data", "dd", "del", "details", "dfn", "dialog",
  "div", "dl", "dt", "em", "embed", "fieldset", "figcaption", "figure", "footer", "form", "h1", "h2", "h3",
  "h4", "h5", "h6", "header", "hr", "i", "iframe", "img", "input", "ins", "kbd", "label", "legend", "li",
  "main", "mark", "nav", "ol", "p", "picture", "pre", "q", "s", "samp", "section", "select", "small",
  "source", "span", "strong", "sub", "summary", "sup", "table", "tbody", "td", "textarea", "tfoot", "th",
  "thead", "time", "tr", "u", "ul", "var", "video"]

/-- The components of the library that a document can use, with the namespaces they are in. -/
def preludeComponents : List (String × String) := [
  ("Document", "document"), ("Section", "document"), ("Ref", "definitions"),
  ("Definition", "definitions"), ("Footnote", "document"), ("Listing", "code"), ("$", "math"),
  ("$$", "math")]

/-- The module of the component library. -/
def componentLibrary : String := "@nota-lang/nota-components"

end Settings

/-- How documents are turned into programs. -/
structure Settings where
  /-- The module with the element factory and the fragment component. -/
  runtime : String := "react"
  /-- The name of the element factory in that module. -/
  factory : String := "createElement"
  /-- The module with the observer. -/
  observer : String := "mobx-react"
  /-- The module of the component library. -/
  components : String := Settings.componentLibrary
  /-- The component names that stand for elements, each once. -/
  intrinsics : List String := Settings.elementNames
  /-- The style sheets that a program imports. -/
  stylesheets : List String := [Settings.componentLibrary ++ "/dist/index.css"]
  /-- Whether a program exports the modules it imports and the text of the document. -/
  debugExports : Bool := false
  /-- The components that need no import and their namespaces, each name once. -/
  prelude : List (String × String) := Settings.preludeComponents
  deriving DecidableEq, Repr

namespace Settings

/-- Adds a name to a list of distinct names. -/
def insertName (names : List String) (name : String) : List String :=
  if names.contains name then names else names ++ [name]

/-- The distinct names of a list, in the order of their first places. -/
def distinctNames (names : List String) : List String :=
  names.foldl insertName []

/-- Gives a name a value: in its place if it has one already, else at the end. -/
def insertPair (pairs : List (String × String)) (pair : String × String) : List (String × String) :=
  if pairs.any fun p => p.1 == pair.1 then pairs.map fun p => if p.1 == pair.1 then pair else p
  else pairs ++ [pair]

/-- The last value of every name, in the order of the first places. -/
def distinctPairs (pairs : List (String × String)) : List (String × String) :=
  pairs.foldl insertPair []

instance : Inhabited Settings := ⟨{}⟩

/-- Whether a name stands for an element. -/
def isIntrinsic (s : Settings) (name : String) : Bool :=
  s.intrinsics.contains name

/-- The namespace of a component that needs no import. -/
def namespace? (s : Settings) (name : String) : Option String :=
  s.prelude.lookup name

/-- Whether two lists have the same members. -/
def sameMembers {α : Type} [DecidableEq α] (a b : List α) : Bool :=
  a.all b.contains && b.all a.contains

/-- Whether two settings agree, the order of names left aside. -/
def agrees (a b : Settings) : Bool :=
  a.runtime == b.runtime && a.factory == b.factory && a.observer == b.observer &&
    a.components == b.components && sameMembers a.intrinsics b.intrinsics &&
    a.stylesheets == b.stylesheets && a.debugExports == b.debugExports &&
    sameMembers a.prelude b.prelude

end Settings

end ComponentMarkup
