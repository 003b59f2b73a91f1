import SyntaxWalk.Node
import SyntaxWalk.Phase

/-!
# Log entries

What the program reports about its work beside its results. An entry is kept as what happened; its level
and its wording are derived from that.
-/

set_option autoImplicit false

namespace SyntaxWalk

/-- How important a log entry is. -/
inductive LogLevel where
  | debug
  | info
  | warn
  deriving DecidableEq

/-- Something that happened. -/
inductive Log where
  /-- A registry was made with this number of extension entries. -/
  | registryBuilt (extensions : Nat)
  /-- A settings file was found at this path. -/
  | settingsFound (path : String)
  /-- No settings file was found. -/
  | settingsMissing
  /-- A node of a type without an entry is visited without its children. -/
  | unknownType (nodeType : String) (path : Path)
  /-- A walk came to its end after entering this number of nodes. -/
  | walkCompleted (nodes : Nat)
  /-- A visitor stopped a walk in this phase after entering this number of nodes. -/
  | walkStopped (phase : Phase) (nodes : Nat)
  /-- This number of files is about to be traced. -/
  | tracingFiles (files : Nat)
  /-- The file at this path is about to be traced. -/
  | tracingFile (path : String)
  deriving DecidableEq

namespace LogLevel

/-- The name of a level. -/
def name : LogLevel → String
  | debug => "DEBUG"
  | info => "INFO"
  | warn => "WARN"

end LogLevel

namespace Log

/-- The level of an entry. -/
def level : Log → LogLevel
  | registryBuilt _ => .debug
  | settingsFound _ => .info
  | settingsMissing => .info
  | unknownType _ _ => .warn
  | walkCompleted _ => .debug
  | walkStopped _ _ => .debug
  | tracingFiles _ => .info
  | tracingFile _ => .debug

/-- The wording of an entry. -/
def message : Log → String
  | registryBuilt n => "Built schema registry with " ++ toString n ++ " extension entries"
  | settingsFound path => "Found config: " ++ path
  | settingsMissing => "No config file found, using defaults"
  | unknownType nodeType path =>
    "Unknown node type `" ++ nodeType ++ "` at " ++ path.render ++ "; visiting without children"
  | walkCompleted n => "Traversal completed: " ++ toString n ++ " nodes"
  | walkStopped phase n =>
    "Traversal stopped in " ++ phase.name ++ " after " ++ toString n ++ " nodes"
  | tracingFiles n => "Tracing " ++ toString n ++ " file(s)"
  | tracingFile path => "Tracing " ++ path

/-- The entry as one line: its level and its wording. -/
def line (entry : Log) : String :=
  entry.level.name ++ " " ++ entry.message

end Log

end SyntaxWalk
