import SyntaxWalk.NameMap
import SyntaxWalk.NodeType

/-!
# The registry of node types

A registry tells for each type name which fields of such a node hold children. It consists of the
standard node types and of extension entries, which add names or take the place of standard entries.
Of two extension entries for one name the later counts.
-/

set_option autoImplicit false

namespace SyntaxWalk

/-- Where an entry of a registry comes from. -/
inductive Origin where
  | standard
  | extension
  deriving DecidableEq

/-- What a registry knows of a type name. -/
structure Entry where
  /-- Where the entry comes from. -/
  origin : Origin
  /-- The fields that hold children, in the order in which a walk takes them. -/
  keys : List String
  deriving DecidableEq

namespace Entry

/-- The number of fields. -/
def size (entry : Entry) : Nat :=
  entry.keys.length

/-- The field at an index. -/
def get? (entry : Entry) (i : Nat) : Option String :=
  entry.keys[i]?

/-- The fields at the given indices; there is no name past the end. -/
def namesAt (entry : Entry) (indices : List Nat) : List String :=
  indices.map fun i => (entry.get? i).getD ""

/-- The fields one by one, from the first index to the last. -/
def forward (entry : Entry) : List String :=
  entry.namesAt (List.range entry.size)

/-- The fields one by one, from the last index to the first. -/
def backward (entry : Entry) : List String :=
  entry.namesAt (List.range entry.size).reverse

@[simp] theorem forward_eq (entry : Entry) : entry.forward = entry.keys := by
  apply List.ext_getElem?
  intro i
  rw [forward, namesAt, size, List.getElem?_map]
  by_cases hi : i < entry.keys.length
  · simp [get?, hi]
  · simp [hi]

@[simp] theorem backward_eq (entry : Entry) : entry.backward = entry.keys.reverse := by
  rw [backward, namesAt, List.map_reverse, ← forward_eq entry]
  rfl

end Entry

/-- The standard node types with extension entries over them. -/
structure Registry where
  /-- The fields of each type name that has an extension entry. -/
  extensions : NameMap (List String)
  deriving DecidableEq

namespace Registry

/-- The standard node types alone. -/
def standard : Registry :=
  ⟨.empty⟩

/-- One step in the making of a registry. -/
inductive BuildStep where
  /-- Writes the entry of one name. -/
  | entry (name : String) (keys : List String)
  /-- Writes several entries one after the other. -/
  | entries (pairs : List (String × List String))

/-- The entries that a step writes, in order. -/
def BuildStep.written : BuildStep → List (String × List String)
  | entry name keys => [(name, keys)]
  | entries pairs => pairs

/-- The registry with the entries of one more step. -/
def extend (registry : Registry) (step : BuildStep) : Registry :=
  ⟨registry.extensions.insertAll step.written⟩

/-- The registry made by steps one after the other over the standard node types. -/
def build (steps : List BuildStep) : Registry :=
  steps.foldl extend standard

/-- The entry of a type name: an extension entry if there is one, else the standard one. -/
def entry? (registry : Registry) (name : String) : Option Entry :=
  match registry.extensions.get? name with
  | some keys => some ⟨.extension, keys⟩
  | none => (NodeType.ofName? name).map fun t => ⟨.standard, t.childKeys⟩

/-- The fields of a type name. -/
def keys? (registry : Registry) (name : String) : Option (List String) :=
  (registry.entry? name).map Entry.keys

/-- Has the name an entry? -/
def contains (registry : Registry) (name : String) : Bool :=
  (registry.entry? name).isSome

/-- Has the name an extension entry? -/
def isExtension (registry : Registry) (name : String) : Bool :=
  registry.extensions.contains name

/-- The number of names with an entry: the standard ones and the extensions that are not standard. -/
def size (registry : Registry) : Nat :=
  NodeType.all.length +
    (registry.extensions.keys.filter fun name => (NodeType.ofName? name).isNone).length

/-- The names with an entry, in increasing order: those of both tables are collected and sorted, and then a name
that stands beside itself is dropped. -/
def typeNames (registry : Registry) : List String :=
  let names := NodeType.all.map NodeType.name ++ registry.extensions.keys
  (names.mergeSort fun a b => a ≤ b).eraseReps

end Registry

end SyntaxWalk
