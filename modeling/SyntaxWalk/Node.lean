import SyntaxWalk.Json.Basic

/-!
# Nodes of a syntax tree

A node of a syntax tree is a JSON object whose member `type` is a non-empty string, its tag. The fields
of a node are the members of the object. A field holds a child node, a sequence, or nothing a walk is
interested in. A child is reached from its parent by an edge: the name of the field and, if the field
holds a sequence, the index of the child in it, where every item of the sequence counts. A path is the
list of the edges from the root down to a node.

Main statement: a child is smaller than its parent (`sizeOf_children_lt`), so that walks end and what
passes from the children of a node to the node holds of every node (`children_induction`).
-/

set_option autoImplicit false

namespace SyntaxWalk

/-- What a field of a node holds. -/
inductive Field where
  /-- Nothing: the field is missing or null. -/
  | absent
  /-- A single object. -/
  | node (value : Json)
  /-- An array, whose items are looked at one by one. -/
  | sequence (items : List Json)
  /-- A string, a number or a truth value. -/
  | scalar

/-- How a child is reached from its parent. -/
structure Edge where
  /-- The field of the parent. -/
  field : String
  /-- The index in the field, if it holds a sequence. -/
  index : Option Nat
  deriving DecidableEq

/-- The way from the root to a node. -/
abbrev Path := List Edge

namespace Path

/-- The text of an edge after the text of the way so far: a point stands between the two unless there is
no text so far. -/
def append (text : String) (edge : Edge) : String :=
  let key := if text = "" then edge.field else text ++ "." ++ edge.field
  match edge.index with
  | none => key
  | some i => key ++ "[" ++ toString i ++ "]"

/-- The text of a way: fields joined by points, with indices in brackets. -/
def render (path : Path) : String :=
  let text := path.foldl append ""
  if text = "" then "<root>" else text

end Path

/-- What a value is when it stands in a field or in a sequence. -/
def Field.ofValue : Json → Field
  | .null => .absent
  | .object members => .node (.object members)
  | .array items => .sequence items
  | _ => .scalar

/-- Is the field missing or null? -/
def Field.isAbsent : Field → Bool
  | .absent => true
  | _ => false

/-- The single object in a field. -/
def Field.node? : Field → Option Json
  | .node value => some value
  | _ => none

namespace Json

/-- The tag of a node. -/
def tag? (node : Json) : Option String :=
  match node.get? "type" with
  | some (.string tag) => if tag = "" then none else some tag
  | _ => none

/-- Is the value null? -/
def isNull : Json → Bool
  | null => true
  | _ => false

/-- Is the value an object, and so a node as far as its parent is concerned? -/
def isNode : Json → Bool
  | object _ => true
  | _ => false

/-- What the named field of a value holds; a value that is no object has no fields. -/
def field (node : Json) (name : String) : Field :=
  match node.get? name with
  | none => .absent
  | some value => .ofValue value

end Json

namespace Field

/-- The objects among the items of a sequence, with their indices; the first item has index `start`. -/
def nodesFrom (name : String) (start : Nat) : List Json → List (Edge × Json)
  | [] => []
  | item :: rest =>
    if item.isNode then (⟨name, some start⟩, item) :: nodesFrom name (start + 1) rest
    else nodesFrom name (start + 1) rest

/-- The children in a field. -/
def children (name : String) : Field → List (Edge × Json)
  | node value => [(⟨name, none⟩, value)]
  | sequence items => nodesFrom name 0 items
  | absent => []
  | scalar => []

/-- Every object found in a sequence is one of its items. -/
theorem mem_of_mem_nodesFrom {name : String} {start : Nat} {items : List Json}
    {child : Edge × Json} (h : child ∈ nodesFrom name start items) : child.2 ∈ items := by
  induction items generalizing start with
  | nil => cases h
  | cons item rest ih =>
    simp only [nodesFrom] at h
    split at h
    · rcases List.mem_cons.1 h with h | h
      · rw [h]
        exact List.mem_cons_self
      · exact List.mem_cons_of_mem _ (ih h)
    · exact List.mem_cons_of_mem _ (ih h)

end Field

namespace Json

/-- The children of a node in the given fields, in order. -/
def children (node : Json) (keys : List String) : List (Edge × Json) :=
  keys.flatMap fun key => (node.field key).children key

/-- A child in a field is smaller than the node. -/
theorem sizeOf_field_child_lt {node : Json} {key : String} {child : Edge × Json}
    (h : child ∈ (node.field key).children key) : sizeOf child.2 < sizeOf node := by
  unfold field at h
  split at h
  · cases h
  · rename_i value hvalue
    have hlt := sizeOf_member_lt hvalue
    cases value with
    | object members =>
      rw [Field.ofValue, Field.children, List.mem_singleton] at h
      rw [h]
      exact hlt
    | array items => exact Nat.lt_trans (sizeOf_item_lt (Field.mem_of_mem_nodesFrom h)) hlt
    | _ => cases h

theorem sizeOf_children_lt {node : Json} {keys : List String} {child : Edge × Json}
    (h : child ∈ node.children keys) : sizeOf child.2 < sizeOf node := by
  obtain ⟨key, -, hchild⟩ := List.mem_flatMap.1 h
  exact sizeOf_field_child_lt hchild

/-- Induction over a tree, with the hypothesis for the children in any fields. -/
@[elab_as_elim]
theorem children_induction {motive : Json → Prop}
    (step : ∀ node, (∀ keys, ∀ child ∈ children node keys, motive child.2) → motive node)
    (node : Json) : motive node := by
  induction hsize : sizeOf node using Nat.strongRecOn generalizing node with
  | ind size ih =>
    subst hsize
    apply step
    intro keys child hchild
    exact ih _ (sizeOf_children_lt hchild) child.2 rfl

end Json

end SyntaxWalk
