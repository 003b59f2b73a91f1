import SyntaxWalk.Walk.Basic

/-!
# The nodes that a walk can reach

An edge leads from a node to the object in a field, or to an object among the items of the array in a
field (`Json.follow`); the children of a node are what the edges of the listed fields lead to
(`mem_children_iff`). A path is reachable from the root if each of its edges leaves from a field that the
registry lists for the node there (`Walker.Reachable`).

Two notions go with the paths of a tree. `Walker.Precedes` is the order in which a walk comes to them: it
compares the position of the field, then the index, and puts a node before what lies below it.
`Walker.multiplicity` counts the ways in which the fields along a path are listed.
-/

set_option autoImplicit false

namespace SyntaxWalk

/-! ## Edges and children -/

/-- The object to which an edge leads: the one in the field, or the one at the index of the array in the
field. -/
def Json.follow (node : Json) (edge : Edge) : Option Json :=
  match edge.index with
  | none => (node.get? edge.field).filter Json.isNode
  | some i =>
    match node.get? edge.field with
    | some (.array items) => items[i]?.filter Json.isNode
    | _ => none

/-- The objects of a sequence are found at their indices. -/
theorem Field.mem_nodesFrom_iff {name : String} {start : Nat} {items : List Json} {edge : Edge}
    {child : Json} :
    (edge, child) ∈ nodesFrom name start items ↔
      ∃ i, edge = ⟨name, some (start + i)⟩ ∧ items[i]?.filter Json.isNode = some child := by
  induction items generalizing start with
  | nil => simp [nodesFrom]
  | cons item rest ih =>
    -- behind the first item every index is one greater
    have hshift : (edge, child) ∈ nodesFrom name (start + 1) rest ↔
        ∃ i, edge = ⟨name, some (start + (i + 1))⟩ ∧
          rest[i]?.filter Json.isNode = some child := by
      rw [ih]
      simp only [Nat.add_assoc, Nat.add_comm 1]
    have hfirst : (∃ i, edge = ⟨name, some (start + i)⟩ ∧
          (item :: rest)[i]?.filter Json.isNode = some child) ↔
        (edge = ⟨name, some start⟩ ∧ (some item).filter Json.isNode = some child) ∨
          ∃ i, edge = ⟨name, some (start + (i + 1))⟩ ∧
            rest[i]?.filter Json.isNode = some child := by
      constructor
      · rintro ⟨i, hedge, hitem⟩
        cases i with
        | zero => exact Or.inl ⟨hedge, hitem⟩
        | succ i => exact Or.inr ⟨i, hedge, hitem⟩
      · rintro (⟨hedge, hitem⟩ | ⟨i, hedge, hitem⟩)
        · exact ⟨0, hedge, hitem⟩
        · exact ⟨i + 1, hedge, hitem⟩
    rw [hfirst, nodesFrom]
    by_cases hnode : item.isNode
    · rw [if_pos hnode, List.mem_cons, hshift, Option.filter_some_pos hnode, Prod.mk.injEq,
        Option.some.injEq, @eq_comm _ item]
    · rw [if_neg hnode, hshift, Option.filter_some_neg (Bool.eq_false_iff.2 hnode)]
      simp only [reduceCtorEq, and_false, false_or]

/-- The children in a field are what the edges of the field lead to. -/
theorem Json.mem_field_children_iff {node : Json} {key : String} {edge : Edge} {child : Json} :
    (edge, child) ∈ (node.field key).children key ↔
      edge.field = key ∧ node.follow edge = some child := by
  rcases edge with ⟨name, index⟩
  unfold field follow
  constructor
  · intro hmem
    cases hvalue : node.get? key with
    | none =>
      rw [hvalue] at hmem
      cases hmem
    | some value =>
      rw [hvalue] at hmem
      cases value with
      | object members =>
        cases List.mem_singleton.1 hmem
        exact ⟨rfl, by rw [hvalue]; rfl⟩
      | array items =>
        obtain ⟨i, hedge, hitem⟩ := Field.mem_nodesFrom_iff.1 hmem
        cases hedge
        rw [Nat.zero_add]
        exact ⟨rfl, by simp only [hvalue]; exact hitem⟩
      | _ => cases hmem
  · rintro ⟨rfl, hfollow⟩
    cases index with
    | none =>
      obtain ⟨hvalue, hnode⟩ := Option.filter_eq_some_iff.1 hfollow
      dsimp only at hvalue
      rw [hvalue]
      cases child with
      | object members => exact List.mem_singleton.2 rfl
      | _ => cases hnode
    | some i =>
      dsimp only at hfollow
      split at hfollow
      · rename_i items hvalue
        rw [hvalue]
        exact Field.mem_nodesFrom_iff.2 ⟨i, by rw [Nat.zero_add], hfollow⟩
      · cases hfollow

/-- The children of a node are what the edges of the given fields lead to. -/
theorem Json.mem_children_iff {node : Json} {keys : List String} {edge : Edge} {child : Json} :
    (edge, child) ∈ node.children keys ↔
      edge.field ∈ keys ∧ node.follow edge = some child := by
  rw [children, List.mem_flatMap]
  constructor
  · rintro ⟨key, hkey, hmem⟩
    obtain ⟨rfl, hfollow⟩ := mem_field_children_iff.1 hmem
    exact ⟨hkey, hfollow⟩
  · rintro ⟨hkey, hfollow⟩
    exact ⟨edge.field, hkey, mem_field_children_iff.2 ⟨rfl, hfollow⟩⟩

theorem Json.isNode_of_follow {node : Json} {edge : Edge} {child : Json}
    (h : node.follow edge = some child) : child.isNode = true := by
  unfold follow at h
  split at h
  · exact (Option.filter_eq_some_iff.1 h).2
  · split at h
    · exact (Option.filter_eq_some_iff.1 h).2
    · cases h

theorem Json.isNull_of_follow {node : Json} {edge : Edge} {child : Json}
    (h : node.follow edge = some child) : child.isNull = false := by
  have hnode := isNode_of_follow h
  cases child with
  | null => cases hnode
  | _ => rfl

namespace Walker

/-! ## Reachable paths -/

/-- The paths of a tree with the nodes at their ends: a root that is not null, and every object to which an
edge leads from a reachable node, in a field that the registry lists for the type of that node. -/
inductive Reachable (walker : Walker) (root : Json) : Path → Json → Prop where
  | root (hroot : root.isNull = false) : Reachable walker root [] root
  | child {path : Path} {node : Json} {edge : Edge} {child : Json}
      (hnode : Reachable walker root path node) (hfield : edge.field ∈ walker.keysOf node)
      (hfollow : node.follow edge = some child) : Reachable walker root (path ++ [edge]) child

/-- The order of a walk on the paths below a node: a node comes before what lies below it, and of two
different edges the one with the earlier field comes first, or with the smaller index in one field. -/
inductive Precedes (walker : Walker) : Json → Path → Path → Prop where
  | ancestor (node : Json) (edge : Edge) (path : Path) : Precedes walker node [] (edge :: path)
  | field {node : Json} {e f : Edge} (p q : Path)
      (hposition : (walker.keysOf node).idxOf e.field < (walker.keysOf node).idxOf f.field) :
      Precedes walker node (e :: p) (f :: q)
  | index {node : Json} {name : String} {i j : Nat} (p q : Path) (hindex : i < j) :
      Precedes walker node (⟨name, some i⟩ :: p) (⟨name, some j⟩ :: q)
  | inside {node child : Json} {edge : Edge} {p q : Path} (hfollow : node.follow edge = some child)
      (hinside : Precedes walker child p q) : Precedes walker node (edge :: p) (edge :: q)

/-- The product, over the edges of a path below a node, of the number of times that the field of the edge
is listed for the node from which the edge leaves. -/
def multiplicity (walker : Walker) : Json → Path → Nat
  | _, [] => 1
  | node, edge :: rest =>
    (walker.keysOf node).count edge.field *
      match node.follow edge with
      | some child => walker.multiplicity child rest
      | none => 0

/-- The order of a walk is strict. -/
theorem Precedes.asymm {walker : Walker} {node : Json} {p q : Path}
    (h : walker.Precedes node p q) : ¬ walker.Precedes node q p := by
  intro hback
  induction h with
  | ancestor node edge path => cases hback
  | field p q hposition =>
    cases hback with
    | field _ _ hposition' => exact Nat.lt_asymm hposition hposition'
    | index _ _ hindex => exact Nat.lt_irrefl _ hposition
    | inside hfollow hinside => exact Nat.lt_irrefl _ hposition
  | index p q hindex =>
    cases hback with
    | field _ _ hposition => exact Nat.lt_irrefl _ hposition
    | index _ _ hindex' => exact Nat.lt_asymm hindex hindex'
    | inside hfollow hinside => exact Nat.lt_irrefl _ hindex
  | inside hfollow hinside ih =>
    cases hback with
    | field _ _ hposition => exact Nat.lt_irrefl _ hposition
    | index _ _ hindex => exact Nat.lt_irrefl _ hindex
    | inside hfollow' hinside' =>
      -- one edge leads to one child, below which the paths are compared
      rw [hfollow] at hfollow'
      cases hfollow'
      exact ih hinside'

theorem isNull_of_mem_keysOf {walker : Walker} {node : Json} {key : String}
    (h : key ∈ walker.keysOf node) : node.isNull = false := by
  cases node with
  | null => cases h
  | _ => rfl

namespace Reachable

variable {walker : Walker}

theorem isNull_root {root node : Json} {path : Path} (h : Reachable walker root path node) :
    root.isNull = false := by
  induction h with
  | root hroot => exact hroot
  | child hnode hfield hfollow ih => exact ih

theorem isNull_node {root node : Json} {path : Path} (h : Reachable walker root path node) :
    node.isNull = false := by
  cases h with
  | root hroot => exact hroot
  | child hnode hfield hfollow => exact Json.isNull_of_follow hfollow

theorem eq_of_nil {node target : Json} (h : Reachable walker node [] target) : target = node := by
  generalize hpath : ([] : Path) = path at h
  cases h with
  | root hroot => rfl
  | child hnode hfield hfollow => simp at hpath

/-- A path below a child is a path below the node. -/
theorem prepend {node child target : Json} {edge : Edge} {path : Path}
    (hfield : edge.field ∈ walker.keysOf node) (hfollow : node.follow edge = some child)
    (h : Reachable walker child path target) : Reachable walker node (edge :: path) target := by
  induction h with
  | root hroot => exact .child (.root (isNull_of_mem_keysOf hfield)) hfield hfollow
  | child hnode hfield' hfollow' ih => exact .child ih hfield' hfollow'

/-- A path below a node starts with an edge to a child and goes on below the child. -/
theorem uncons {node target : Json} {edge : Edge} {path : Path}
    (h : Reachable walker node (edge :: path) target) :
    ∃ child, edge.field ∈ walker.keysOf node ∧ node.follow edge = some child ∧
      Reachable walker child path target := by
  -- a reachable path grows at its end, and its first edge is taken off
  generalize hwhole : edge :: path = whole at h
  induction h generalizing path with
  | root hroot => cases hwhole
  | @child before node' edge' child' hnode hfield hfollow ih =>
    cases before with
    | nil =>
      cases hwhole
      rw [eq_of_nil hnode] at hfield hfollow
      exact ⟨child', hfield, hfollow, .root (Json.isNull_of_follow hfollow)⟩
    | cons first before =>
      obtain ⟨rfl, rfl⟩ := List.cons.inj hwhole
      obtain ⟨child, hfield', hfollow', hbelow⟩ := ih rfl
      exact ⟨child, hfield', hfollow', .child hbelow hfield hfollow⟩

/-- A path leads to one node only. -/
theorem unique {path : Path} {root a b : Json} (ha : Reachable walker root path a)
    (hb : Reachable walker root path b) : a = b := by
  induction path generalizing root with
  | nil => rw [eq_of_nil ha, eq_of_nil hb]
  | cons edge path ih =>
    obtain ⟨child, -, hchild, ha'⟩ := uncons ha
    obtain ⟨child', -, hchild', hb'⟩ := uncons hb
    rw [hchild] at hchild'
    cases hchild'
    exact ih ha' hb'

end Reachable

end Walker

end SyntaxWalk
