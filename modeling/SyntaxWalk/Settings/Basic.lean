import SyntaxWalk.Walk.Basic

/-!
# Settings of a walk

The settings are what a user may choose about a walk: what happens at unknown types, how deep nodes may
lie, and which fields hold the children of further types. From the settings come the registry and the
rules of the walk.
-/

set_option autoImplicit false

namespace SyntaxWalk

/-- The settings of a walk. -/
structure Settings where
  /-- What happens at a node whose type has no entry. -/
  unknownTypes : UnknownTypes := .strict
  /-- The greatest depth of a node, if there is a limit. -/
  maxDepth : Option Nat := none
  /-- The fields of further types, or of standard types in place of the standard ones. -/
  keys : NameMap (List String) := .empty
  /-- The directory of the file from which the settings were read. -/
  baseDir : Option String := none
  deriving DecidableEq

namespace Settings

/-- Strict, without a limit and without further types. -/
def default : Settings :=
  {}

/-- The settings with another policy for unknown types. -/
def withUnknownTypes (settings : Settings) (policy : UnknownTypes) : Settings :=
  { settings with unknownTypes := policy }

/-- The settings with a limit on the depth. -/
def withMaxDepth (settings : Settings) (depth : Nat) : Settings :=
  { settings with maxDepth := some depth }

/-- The settings with the fields of one more type. -/
def withKeys (settings : Settings) (name : String) (keys : List String) : Settings :=
  { settings with keys := settings.keys.insert name keys }

/-- Are unknown types tolerated? -/
def isLenient (settings : Settings) : Bool :=
  settings.unknownTypes = .lenient

/-- The registry with the further types of the settings. -/
def registry (settings : Settings) : Registry :=
  .build [.entries settings.keys.entries]

/-- The rules of a walk over a registry under the settings. -/
def walkerOver (settings : Settings) (registry : Registry) : Walker :=
  ⟨registry, settings.unknownTypes, settings.maxDepth⟩

/-- The rules of a walk under the settings. -/
def walker (settings : Settings) : Walker :=
  settings.walkerOver settings.registry

end Settings

end SyntaxWalk
