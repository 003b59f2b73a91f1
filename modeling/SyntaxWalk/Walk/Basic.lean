import SyntaxWalk.Log
import SyntaxWalk.Node
import SyntaxWalk.Registry

/-!
# Walks over syntax trees

The terms in which a walk is described: what a visitor sees of a node and what it may answer, how a walk
ends, and what it leaves behind. A visitor carries a state of its own through the walk; each of its two
hooks gets the node and its context and answers with an action or with an error of its own.

A walk leaves behind a `Run`: its result, the final state of the visitor, the hook calls in order and the
log. The hook calls are kept so that statements about order, nesting and contexts can be made of them.
-/

set_option autoImplicit false

namespace SyntaxWalk

universe u v

/-! ## Places in a tree -/

/-- The nodes above a node, nearest first, with their number kept at hand. -/
structure Ancestry where
  /-- The nodes, the parent first and the root last. -/
  nearestFirst : List Json
  /-- Their number. -/
  depth : Nat
  /-- The number is right. -/
  depth_eq : depth = nearestFirst.length

namespace Ancestry

/-- Nothing is above the root. -/
def none : Ancestry :=
  ⟨[], 0, rfl⟩

/-- The nodes above the children of a node. -/
def push (above : Ancestry) (node : Json) : Ancestry :=
  ⟨node :: above.nearestFirst, above.depth + 1, by rw [above.depth_eq, List.length_cons]⟩

/-- The nodes above the parent. -/
def pop (above : Ancestry) : Ancestry :=
  ⟨above.nearestFirst.tail, above.depth - 1, by rw [above.depth_eq, List.length_tail]⟩

/-- The nodes, the root first and the parent last. -/
def rootFirst (above : Ancestry) : List Json :=
  above.nearestFirst.reverse

@[simp] theorem pop_push (above : Ancestry) (node : Json) : (above.push node).pop = above := rfl

theorem ext_nearestFirst {a b : Ancestry} (h : a.nearestFirst = b.nearestFirst) : a = b := by
  rcases a with ⟨nodes, depth, hdepth⟩
  rcases b with ⟨nodes', depth', hdepth'⟩
  cases h
  cases hdepth.trans hdepth'.symm
  rfl

end Ancestry

/-- The place of a node, from the inside: the edge by which it is reached, and the edges by which the
nodes above it are reached, nearest first. The root is reached by no edge. -/
structure Place where
  edge : Option Edge
  above : List (Option Edge)

/-- The path of a place. -/
def Place.path (place : Place) : Path :=
  (place.edge :: place.above).reverse.filterMap id

/-! ## Visitors -/

/-- What a visitor sees of the place of a node. -/
structure Context where
  /-- The nodes above the node. -/
  ancestors : Ancestry
  /-- How the node is reached from its parent; the root is reached by no edge. -/
  edge : Option Edge
  /-- The tag of the node. -/
  nodeType : String

namespace Context

/-- The nodes above the node, the root first. -/
def parents (context : Context) : List Json :=
  context.ancestors.rootFirst

/-- The node directly above. -/
def parent? (context : Context) : Option Json :=
  context.ancestors.nearestFirst.head?

/-- The number of nodes above the node. -/
def depth (context : Context) : Nat :=
  context.ancestors.depth

/-- The field of the parent that holds the node. -/
def key? (context : Context) : Option String :=
  context.edge.map Edge.field

/-- The index of the node in that field, if it holds a sequence. -/
def index? (context : Context) : Option Nat :=
  context.edge.bind Edge.index

end Context

/-- What a visitor wants after a hook. -/
inductive Action where
  /-- Go on. -/
  | proceed
  /-- After `enter`, leave the children out; after `leave`, go on. -/
  | skip
  /-- End the walk. -/
  | stop
  deriving DecidableEq

/-- A visitor with a state of type `σ` and errors of type `ε`. Each hook gives its answer and the new
state, also when the answer is an error. -/
structure Visitor (σ : Type u) (ε : Type v) where
  /-- Called before the children of a node. -/
  enter : Json → Context → σ → Except ε Action × σ
  /-- Called after the children of a node. -/
  leave : Json → Context → σ → Except ε Action × σ

/-- The hook of a phase. -/
def Visitor.hook {σ : Type u} {ε : Type v} (visitor : Visitor σ ε) :
    Phase → Json → Context → σ → Except ε Action × σ
  | .enter => visitor.enter
  | .leave => visitor.leave

/-- A call of a hook. -/
structure Call where
  phase : Phase
  node : Json
  context : Context

/-! ## How a walk ends -/

/-- Why a node cannot be entered. -/
inductive Fault where
  /-- The node has no tag. -/
  | malformed (path : Path)
  /-- The tag has no entry in the registry. -/
  | unknownType (nodeType : String) (path : Path)
  /-- The node lies deeper than the limit. -/
  | tooDeep (limit : Nat) (path : Path)
  deriving DecidableEq

namespace Fault

/-- Where the fault was found. -/
def path : Fault → Path
  | malformed path => path
  | unknownType _ path => path
  | tooDeep _ path => path

/-- The wording of a fault. -/
def message : Fault → String
  | malformed path => "malformed node at " ++ path.render ++ ": missing `type` tag"
  | unknownType nodeType path => "unknown node type `" ++ nodeType ++ "` at " ++ path.render
  | tooDeep limit path => "depth limit of " ++ toString limit ++ " exceeded at " ++ path.render

end Fault

/-- Why a walk failed: a node could not be entered, or the visitor refused to go on. -/
inductive Failure (ε : Type v) where
  | fault (fault : Fault)
  | visitor (error : ε)

/-- How a walk that did not fail ended. -/
inductive Outcome where
  /-- Everything was visited. -/
  | completed
  /-- The visitor ended the walk. -/
  | stopped
  deriving DecidableEq

/-- What a walk leaves behind. -/
structure Run (σ : Type u) (ε : Type v) where
  /-- How it ended. -/
  result : Except (Failure ε) Outcome
  /-- The final state of the visitor. -/
  state : σ
  /-- The calls of the hooks, in order. -/
  calls : List Call
  /-- What was logged, in order. -/
  logs : List Log

/-! ## What governs a walk -/

/-- What happens at a node whose type has no entry in the registry. -/
inductive UnknownTypes where
  /-- The walk fails. -/
  | strict
  /-- The node is visited without its children. -/
  | lenient
  deriving DecidableEq

namespace UnknownTypes

/-- The name of a policy. -/
def name : UnknownTypes → String
  | strict => "strict"
  | lenient => "lenient"

/-- The policy with the given name. -/
def ofName? : String → Option UnknownTypes
  | "strict" => some strict
  | "lenient" => some lenient
  | _ => none

end UnknownTypes

/-- The rules of a walk: which fields hold children, what to do about unknown types, and how deep nodes
may lie. The root lies at depth zero. -/
structure Walker where
  registry : Registry
  unknownTypes : UnknownTypes
  maxDepth : Option Nat

namespace Walker

/-- The standard node types, no others, at any depth. -/
def standard : Walker :=
  ⟨.standard, .strict, none⟩

/-- The limit that a node at the given depth exceeds. -/
def exceeded? (walker : Walker) (depth : Nat) : Option Nat :=
  match walker.maxDepth with
  | some limit => if limit < depth then some limit else none
  | none => none

/-- What has to be known of a node before it is entered. -/
structure Finding where
  /-- The tag of the node. -/
  nodeType : String
  /-- The fields that hold its children. -/
  keys : List String
  /-- Has the tag an entry in the registry? -/
  known : Bool

/-- Examines a node at a given depth before it is entered. A missing tag comes before an exceeded limit,
and that before an unknown type. -/
def examine (walker : Walker) (node : Json) (depth : Nat) (place : Place) : Except Fault Finding :=
  match node.tag? with
  | none => .error (.malformed place.path)
  | some tag =>
    match walker.exceeded? depth with
    | some limit => .error (.tooDeep limit place.path)
    | none =>
      match walker.registry.keys? tag with
      | some keys => .ok ⟨tag, keys, true⟩
      | none =>
        match walker.unknownTypes with
        | .strict => .error (.unknownType tag place.path)
        | .lenient => .ok ⟨tag, [], false⟩

/-- The fields in which children of a node are looked for: none if its tag is missing or unknown. -/
def keysOf (walker : Walker) (node : Json) : List String :=
  match node.tag? with
  | none => []
  | some tag => (walker.registry.keys? tag).getD []

/-- The children of a node, in the order of a walk. -/
def children (walker : Walker) (node : Json) : List (Edge × Json) :=
  node.children (walker.keysOf node)

/-- A node passes with its tag and within the limit. If the tag has an entry, its children are looked for in
the fields of the entry. If it has none, the walk is lenient and there are no children. -/
theorem examine_eq_ok_iff {walker : Walker} {node : Json} {depth : Nat} {place : Place}
    {found : Finding} :
    walker.examine node depth place = .ok found ↔
      node.tag? = some found.nodeType ∧ walker.exceeded? depth = none ∧
        ((walker.registry.keys? found.nodeType = some found.keys ∧ found.known = true) ∨
          (walker.registry.keys? found.nodeType = none ∧ walker.unknownTypes = .lenient ∧
            found.keys = [] ∧ found.known = false)) := by
  rcases found with ⟨nodeType, keys, known⟩
  unfold examine
  cases htag : node.tag? with
  | none => simp
  | some tag =>
    cases hdepth : walker.exceeded? depth with
    | some limit => simp
    | none =>
      cases hkeys : walker.registry.keys? tag with
      | some fields => grind
      | none => cases hpolicy : walker.unknownTypes <;> grind

/-- A node is malformed exactly if it has no tag. -/
theorem examine_eq_malformed_iff {walker : Walker} {node : Json} {depth : Nat} {place : Place}
    {path : Path} :
    walker.examine node depth place = .error (.malformed path) ↔
      node.tag? = none ∧ path = place.path := by
  unfold examine
  cases htag : node.tag? with
  | none => simp [eq_comm]
  | some tag =>
    cases hdepth : walker.exceeded? depth with
    | some limit => simp
    | none =>
      cases hkeys : walker.registry.keys? tag with
      | some fields => simp [hkeys]
      | none => cases hpolicy : walker.unknownTypes <;> simp [hkeys]

/-- A node that passes is searched for children in exactly the fields that the registry lists. -/
theorem keys_of_examine {walker : Walker} {node : Json} {depth : Nat} {place : Place}
    {found : Finding} (h : walker.examine node depth place = .ok found) :
    found.keys = walker.keysOf node := by
  obtain ⟨htag, -, hkeys⟩ := examine_eq_ok_iff.1 h
  unfold keysOf
  rw [htag]
  dsimp only
  rcases hkeys with ⟨hentry, -⟩ | ⟨hnone, -, hkeys, -⟩
  · rw [hentry, Option.getD_some]
  · rw [hnone, Option.getD_none, hkeys]

end Walker

end SyntaxWalk
