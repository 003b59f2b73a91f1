import SyntaxWalk.Files.Basic
import SyntaxWalk.Json.Relaxed
import SyntaxWalk.Settings.Json
import SyntaxWalk.Settings.Schema

/-!
# Loading settings

Settings are read from relaxed JSON: the text is read, the value is checked against the schema, and the
settings are taken from it. A text without a value counts as the empty object. A settings file is looked
for in a directory under two names, of which the first found counts.
-/

set_option autoImplicit false

namespace SyntaxWalk

/-- Why settings could not be loaded. -/
inductive SettingsError where
  /-- The file could not be read. -/
  | unreadable (path : String) (error : ReadError)
  /-- The text is no relaxed JSON, for the reason that the reader gives. -/
  | malformed (detail : String)
  /-- The value violates the schema. -/
  | violation (found : Violation)
  /-- The value has no settings in it. -/
  | mismatch (found : Mismatch)

/-- The wording of the error. -/
def SettingsError.message : SettingsError → String
  | unreadable path error => "Failed to read config " ++ path ++ ": " ++ error.message
  | malformed detail => "Invalid JSON: " ++ detail
  | violation found => "Config validation failed: " ++ found.message
  | mismatch found => "Invalid config: " ++ found.message

namespace Settings

/-- The settings in a value that has to follow the schema. -/
def ofValue (value : Json) : Except SettingsError Settings :=
  match Schema.settings value [] with
  | some violation => .error (.violation violation)
  | none =>
    match ofJson value with
    | .error mismatch => .error (.mismatch mismatch)
    | .ok settings => .ok settings

/-- The settings in a text; `complaint` is what is said about a text that is no relaxed JSON. -/
def ofText (complaint : String → String) (text : String) : Except SettingsError Settings :=
  match Json.parseRelaxed? text with
  | none => .error (.malformed (complaint text))
  | some value => ofValue (value.getD (.object []))

variable {m : Type → Type} [Monad m]

/-- The settings in a file, which remember the directory of the file. -/
def load (files : FileAccess m) (complaint : String → String) (path : String) :
    m (Except SettingsError Settings) := do
  match ← files.readText path with
  | .error error => return .error (.unreadable path error)
  | .ok text =>
    match ofText complaint text with
    | .error error => return .error error
    | .ok settings => return .ok { settings with baseDir := some (parentPath path) }

/-- The names of settings files, the preferred one first. -/
def fileNames : List String :=
  [".eswalk.jsonc", ".eswalk.json"]

/-- Looks for a settings file in a directory. -/
def discover (files : FileAccess m) (dir : String) : m (Option String) :=
  files.firstFile? (fileNames.map (joinPath dir))

end Settings

end SyntaxWalk
