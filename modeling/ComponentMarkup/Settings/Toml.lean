import ComponentMarkup.Settings.Basic
import ComponentMarkup.Toml.Read
import ComponentMarkup.Toml.Write

/-!
# Settings as TOML

Settings can be kept in a text in the TOML format.  Keys that are missing take their defaults, and keys that
are no settings are left aside.
-/

namespace ComponentMarkup.Settings

open ComponentMarkup.Toml

/-- The setting under a key: the default if the key is missing, nothing if its value does not fit. -/
def setting {α : Type} (entries : Entries) (key : String) (default : α) (fit : Value → Option α) : Option α :=
  match entries.lookup key with
  | none => some default
  | some value => fit value

/-- The settings that a table holds. -/
def ofEntries? (entries : Entries) : Option Settings := do
  let d : Settings := {}
  return {
    runtime := ← setting entries "runtime" d.runtime Value.string?
    factory := ← setting entries "factory" d.factory Value.string?
    observer := ← setting entries "observer" d.observer Value.string?
    components := ← setting entries "components" d.components Value.string?
    intrinsics := ← setting entries "intrinsics" d.intrinsics fun v => v.strings?.map distinctNames
    stylesheets := ← setting entries "stylesheets" d.stylesheets Value.strings?
    debugExports := ← setting entries "debug-exports" d.debugExports Value.boolean?
    prelude := ← setting entries "prelude" d.prelude Value.stringPairs? }

/-- The settings that a text holds, if it fits the format. -/
def ofToml? (text : String) : Option Settings :=
  (read? text).bind ofEntries?

/-- The settings as a text. -/
def toToml (s : Settings) : String :=
  writeLine "runtime" (writeString s.runtime) ++
    writeLine "factory" (writeString s.factory) ++
    writeLine "observer" (writeString s.observer) ++
    writeLine "components" (writeString s.components) ++
    writeLine "intrinsics" (writeStrings s.intrinsics) ++
    writeLine "stylesheets" (writeStrings s.stylesheets) ++
    writeLine "debug-exports" (if s.debugExports then "true" else "false") ++
    "\n[prelude]\n" ++
    String.join (s.prelude.map fun (name, space) => writeLine name (writeString space))

end ComponentMarkup.Settings
