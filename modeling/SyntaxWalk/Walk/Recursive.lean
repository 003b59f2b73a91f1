import SyntaxWalk.Walk.Machine

/-!
# The walk by recursion

The same walk as that of the machine, told from the tree: a node is checked and entered, its children
are visited one after the other, and it is left. The first thing that ends the walk, a fault, an error of
the visitor or its wish to stop, ends it everywhere. There is no stack here: the nodes above a node and
the edges that lead to it are handed down.
-/

set_option autoImplicit false

namespace SyntaxWalk

universe u v

/-- What ends a walk before everything is visited. -/
inductive Halt (ε : Type v) where
  /-- The visitor wants to stop. -/
  | stopped (phase : Phase)
  /-- The walk fails. -/
  | failed (failure : Failure ε)

namespace Walker

variable {σ : Type u} {ε : Type v}

/-- The children that are visited after the given answer of the `enter` hook. -/
def visitedChildren (node : Json) (found : Finding) (action : Action) : List (Edge × Json) :=
  if action = .skip then [] else node.children found.keys

theorem mem_children_of_visited {node : Json} {found : Finding} {action : Action}
    {child : Edge × Json} (h : child ∈ visitedChildren node found action) :
    child ∈ node.children found.keys := by
  unfold visitedChildren at h
  split at h
  · cases h
  · exact h

theorem sizeOf_visitedChildren_lt {node : Json} {found : Finding} {action : Action}
    {child : Edge × Json} (h : child ∈ visitedChildren node found action) :
    sizeOf child.2 < sizeOf node :=
  Json.sizeOf_children_lt (mem_children_of_visited h)

mutual

/-- Visits a node and everything below it. First it has to have a tag, then it must not lie too deep, and then its
type has to be known unless unknown types are tolerated. -/
def visit (walker : Walker) (visitor : Visitor σ ε) (node : Json) (edge : Option Edge)
    (above : Ancestry) (steps : List (Option Edge)) (progress : Progress σ) :
    Option (Halt ε) × Progress σ :=
  match node.tag? with
  | none => (some (.failed (.fault (.malformed (Place.mk edge steps).path))), progress)
  | some tag =>
    match walker.maxDepth.filter (· < above.depth) with
    | some limit => (some (.failed (.fault (.tooDeep limit (Place.mk edge steps).path))), progress)
    | none =>
      let keys := walker.registry.keys? tag
      if keys.isNone ∧ walker.unknownTypes = .strict then
        (some (.failed (.fault (.unknownType tag (Place.mk edge steps).path))), progress)
      else walker.visitFound visitor node ⟨tag, keys.getD [], keys.isSome⟩ edge above steps progress
termination_by (sizeOf node, 2, 0)

/-- Visits a node that passed the checks: enters it, visits its children and leaves it. -/
def visitFound (walker : Walker) (visitor : Visitor σ ε) (node : Json) (found : Finding)
    (edge : Option Edge) (above : Ancestry) (steps : List (Option Edge)) (progress : Progress σ) :
    Option (Halt ε) × Progress σ :=
  match (progress.noteUnknown found ⟨edge, steps⟩).call visitor .enter node
      ⟨above, edge, found.nodeType⟩ with
  | (.error error, progress) => (some (.failed (.visitor error)), progress)
  | (.ok .stop, progress) => (some (.stopped .enter), progress.countNode)
  | (.ok action, progress) =>
    match walker.visitAll visitor (sizeOf node) (visitedChildren node found action)
        (fun _ => sizeOf_visitedChildren_lt) (above.push node) (edge :: steps)
        progress.countNode with
    | (some halt, progress) => (some halt, progress)
    | (none, progress) =>
      match progress.call visitor .leave node ⟨above, edge, found.nodeType⟩ with
      | (.error error, progress) => (some (.failed (.visitor error)), progress)
      | (.ok .stop, progress) => (some (.stopped .leave), progress)
      | (.ok _, progress) => (none, progress)
termination_by (sizeOf node, 1, 0)

/-- Visits children one after the other, as long as nothing ends the walk. All of them are smaller than
the given bound. -/
def visitAll (walker : Walker) (visitor : Visitor σ ε) (bound : Nat)
    (children : List (Edge × Json)) (small : ∀ child ∈ children, sizeOf child.2 < bound)
    (above : Ancestry) (steps : List (Option Edge)) (progress : Progress σ) :
    Option (Halt ε) × Progress σ :=
  match children with
  | [] => (none, progress)
  | child :: rest =>
    match walker.visit visitor child.2 (some child.1) above steps progress with
    | (some halt, progress) => (some halt, progress)
    | (none, progress) =>
      walker.visitAll visitor bound rest (fun c hc => small c (List.mem_cons_of_mem _ hc)) above
        steps progress
termination_by (bound, 0, children.length)
decreasing_by
  · exact Prod.Lex.left _ _ (small child List.mem_cons_self)
  · exact Prod.Lex.right _ (Prod.Lex.right _ (Nat.lt_succ_self _))

end

/-- Walks a tree with a visitor, by recursion. -/
def walkByRecursion (walker : Walker) (visitor : Visitor σ ε) (root : Json) (state : σ) :
    Run σ ε :=
  if root.isNull then (Progress.start state).finish (.ok .completed)
  else
    match walker.visit visitor root none .none [] (.start state) with
    | (none, progress) => progress.completed
    | (some (.stopped phase), progress) => progress.stopped phase
    | (some (.failed failure), progress) => progress.failed failure

end Walker

end SyntaxWalk
