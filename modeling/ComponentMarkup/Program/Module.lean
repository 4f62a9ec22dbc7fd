import ComponentMarkup.Program.Simplify
import ComponentMarkup.Program.SourceMap
import ComponentMarkup.Render.Needs
import ComponentMarkup.Settings.Basic

/-!
# Modules

A program is a module: imports, the components that the document uses, the imports and exports of its scripts,
and a default export that renders the document.
-/

namespace ComponentMarkup.Program

open ComponentMarkup.Render

/-- The name of what the document component gets. -/
def documentProperties : String := "docProps"

/-- The name of the component that renders the document. -/
def documentComponent : String := "Document"

/-- The default export: an observed component that renders the document. -/
def documentExpr (members : List Member) (body : Expr) : Expr :=
  let properties := Expr.object (.spread (.ident documentProperties) :: members)
  let element := Expr.element (.ident documentComponent) properties [.spread body]
  simplify (.call (.ident "observer") [.item (.bare (.arrow documentProperties element))])

/-! ## What is imported -/

/-- Adds a name to the group of a key, which is made if there is none. -/
def addToGroup (groups : List (String × List String)) (key name : String) : List (String × List String) :=
  if groups.any fun g => g.1 == key then
    groups.map fun g => if g.1 == key then (g.1, g.2 ++ [name]) else g
  else groups ++ [(key, [name])]

/-- Whether a program has to provide a component: the one that renders the document, and those that are referred
to and not imported. -/
def isProvided (needs : Needs) (name : String) : Bool :=
  (needs.names.contains name && !needs.bound.contains name) || name == documentComponent

/-- The components that a program provides, by namespace. -/
def usedComponents (settings : Settings) (needs : Needs) : List (String × List String) :=
  (settings.prelude.filter fun (name, _) => isProvided needs name).foldl
    (fun groups (name, space) => addToGroup groups space name) []

/-- Notes that a module is imported, and whether its default export is bound. -/
def addModule (modules : List (String × Bool)) (module : String × Bool) : List (String × Bool) :=
  if modules.any fun m => m.1 == module.1 then
    modules.map fun m => if m.1 == module.1 then (m.1, m.2 || module.2) else m
  else modules ++ [module]

/-- The imported modules in the order of their first imports, and whether any import binds the default
export. -/
def importedModules (needs : Needs) : List (String × Bool) :=
  needs.modules.foldl addModule []

/-! ## Layout -/

/-- Names in braces. -/
def braced (names : List String) : String :=
  "\x7b " ++ ", ".intercalate names ++ " \x7d"

/-- An import of something from a module. -/
def importLine (what module : String) : String :=
  "import " ++ what ++ " from " ++ literal module ++ ";\n"

/-- The imports that every program starts with, and the components it provides. -/
def headText (settings : Settings) (needs : Needs) : String :=
  let used := usedComponents settings needs
  importLine (braced [settings.factory ++ " as " ++ Expr.factoryName, Expr.fragmentName]) settings.runtime ++
    importLine (braced ["observer"]) settings.observer ++
    (if used.isEmpty then "" else importLine (braced (used.map Prod.fst)) settings.components) ++
    String.join (settings.stylesheets.map fun sheet => "import " ++ literal sheet ++ ";\n") ++
    String.join (used.map fun (space, names) => "const " ++ braced names ++ " = " ++ space ++ ";\n")

/-- The local name of an imported module. -/
def moduleName (number : Nat) : String :=
  "import" ++ toString number

/-- The local name of a module's default export. -/
def defaultName (number : Nat) : String :=
  moduleName number ++ "_default"

/-- The import of a whole module. -/
def wholeImport (entry : (String × Bool) × Nat) : String :=
  let ((module, binds), number) := entry
  let whole := "* as " ++ moduleName number
  importLine (if binds then defaultName number ++ ", " ++ whole else whole) module

/-- A module as a member of the exported imports. -/
def exportedModule (entry : (String × Bool) × Nat) : String :=
  let ((module, binds), number) := entry
  literal module ++ ": \x7b..." ++ moduleName number ++ ", \"__esModule\": true" ++
    (if binds then ", \"default\": " ++ defaultName number else "") ++ "\x7d"

/-- The exports of the imported modules and of the document's text. -/
def debugText (modules : List ((String × Bool) × Nat)) (document : String) : String :=
  "export let imports = \x7b" ++ ", ".intercalate (modules.map exportedModule) ++
    "\x7d;\nexport let source = " ++ literal document ++ ";\n"

/-- Lays out the module of a document. -/
def moduleLayout (settings : Settings) (needs : Needs) (document : String) (expr : Expr) : List Chunk :=
  let modules := (importedModules needs).zipIdx
  let wholeImports := if settings.debugExports then String.join (modules.map wholeImport) else ""
  let debugExports := if settings.debugExports then debugText modules document else ""
  .mark 0 :: .text (headText settings needs) :: statementLayouts needs.imports ++
    .text wholeImports :: statementLayouts needs.exports ++
    .text debugExports :: .text "export default " :: expr.layout ++ [.text ";\n"]

end ComponentMarkup.Program
