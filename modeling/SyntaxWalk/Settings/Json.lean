import SyntaxWalk.Settings.Basic

/-!
# Settings as JSON

The JSON form of settings is an object that always gives the policy, and gives the limit and the further
types only if there are any. Two forms are read: an object, in which every member may be missing and
unknown members do not matter, and an array of at most three values in the order policy, limit, further
types. The directory of the settings is not part of the form.
-/

set_option autoImplicit false

namespace SyntaxWalk

/-- A value that does not have the form it should have. -/
structure Mismatch where
  /-- The value found. -/
  found : Json
  /-- What was expected in its place. -/
  expected : String

namespace Mismatch

/-- A value as it is named in a mismatch. -/
def describe : Json → String
  | .null => "null"
  | .bool b => "boolean `" ++ (if b then "true" else "false") ++ "`"
  | .number (.int n) => "integer `" ++ toString n ++ "`"
  | .number (.float x) => "floating point `" ++ x.text ++ "`"
  | .string s => "string \"" ++ s ++ "\""
  | .array _ => "sequence"
  | .object _ => "map"

/-- The wording of a mismatch. -/
def message (mismatch : Mismatch) : String :=
  "invalid type: " ++ describe mismatch.found ++ ", expected " ++ mismatch.expected

end Mismatch

namespace Settings

/-- The JSON form of the further types. -/
def keysToJson (keys : NameMap (List String)) : Json :=
  .object (keys.entries.map fun entry => (entry.1, Json.ofStrings entry.2))

/-- The JSON form of settings. -/
def toJson (settings : Settings) : Json :=
  let keys := if settings.keys.isEmpty then [] else [("keys", keysToJson settings.keys)]
  let maxDepth := match settings.maxDepth with
    | none => []
    | some depth => [("maxDepth", Json.ofNat depth)]
  .object (keys ++ maxDepth ++ [("unknownTypes", .string settings.unknownTypes.name)])

/-- Reads the policy, strict if it is missing. -/
def policyOf : Option Json → Except Mismatch UnknownTypes
  | none => .ok .strict
  | some value =>
    match value.choice?.bind UnknownTypes.ofName? with
    | some policy => .ok policy
    | none => .error ⟨value, "`strict` or `lenient`"⟩

/-- Reads the limit, which may be missing or null. -/
def maxDepthOf : Option Json → Except Mismatch (Option Nat)
  | none => .ok none
  | some .null => .ok none
  | some (.number n) =>
    match n.toNat? with
    | some depth => .ok (some depth)
    | none => .error ⟨.number n, "usize"⟩
  | some value => .error ⟨value, "usize"⟩

/-- Reads the fields of each further type. -/
def keyEntriesOf : Bindings Json → Except Mismatch (Bindings (List String))
  | [] => .ok []
  | (name, value) :: rest =>
    match value.strings? with
    | none => .error ⟨value, "a sequence of strings"⟩
    | some keys =>
      match keyEntriesOf rest with
      | .error mismatch => .error mismatch
      | .ok entries => .ok ((name, keys) :: entries)

/-- Reads the further types, none if they are missing. -/
def keysOf : Option Json → Except Mismatch (NameMap (List String))
  | none => .ok .empty
  | some (.object members) =>
    match keyEntriesOf members with
    | .error mismatch => .error mismatch
    | .ok entries => .ok (.ofList entries)
  | some value => .error ⟨value, "a map"⟩

/-- Reads settings from their parts. -/
def ofParts (policy maxDepth keys : Option Json) : Except Mismatch Settings := do
  let keys ← keysOf keys
  let maxDepth ← maxDepthOf maxDepth
  let unknownTypes ← policyOf policy
  return { unknownTypes, maxDepth, keys }

/-- Reads settings from a JSON value. -/
def ofJson : Json → Except Mismatch Settings
  | .object members =>
    ofParts (Bindings.get? "unknownTypes" members) (Bindings.get? "maxDepth" members)
      (Bindings.get? "keys" members)
  | .array [] => ofParts none none none
  | .array [policy] => ofParts (some policy) none none
  | .array [policy, maxDepth] => ofParts (some policy) (some maxDepth) none
  | .array [policy, maxDepth, keys] => ofParts (some policy) (some maxDepth) (some keys)
  | value => .error ⟨value, "the settings of a walk"⟩

end Settings

end SyntaxWalk
