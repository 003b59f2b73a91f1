import Mathlib
import SyntaxWalk.Proofs.Walk.Faults

/-!
# The context of a call is an address

The context that a visitor gets with a node says where the node stands in the tree: the nodes above it
form a chain of parents and children that starts at the root, and the field and the index lead from the
last of them to the node (`walk_calls_addressed`).

A frame may wait on the stack of the machine while whole subtrees above it are worked off. The statement
is therefore made of every frame and not only of the one on top (`Walker.Anchored`): each stands below
the open nodes that the `leave` frames under it stand for. `Walker.Addressed` is what this says of one
node. A step keeps a stack anchored (`anchored_step`).
-/

set_option autoImplicit false

namespace SyntaxWalk

universe u v

variable {σ : Type u} {ε : Type v}

/-! ## Children in listed fields -/

/-- An edge leads to the object in its field or, if it has an index, to the object at this index of the
sequence in its field. -/
theorem Json.follow_eq_some_iff {node child : Json} {edge : Edge} :
    node.follow edge = some child ↔
      (edge.index = none ∧ node.field edge.field = .node child) ∨
        ∃ items i, edge.index = some i ∧ node.field edge.field = .sequence items ∧
          items[i]? = some child ∧ child.isNode = true := by
  rcases edge with ⟨name, index⟩
  unfold follow field
  cases index with
  | none =>
    cases hvalue : node.get? name with
    | none => simp
    | some value => cases value <;> simp [Field.ofValue, isNode, Option.filter]
  | some i =>
    cases hvalue : node.get? name with
    | none => simp
    | some value => cases value <;> simp [Field.ofValue, Option.filter_eq_some_iff]

namespace Walker

/-- The registry lists a field for the tag of a node. -/
def Lists (walker : Walker) (node : Json) (key : String) : Prop :=
  ∃ tag keys, node.tag? = some tag ∧ walker.registry.keys? tag = some keys ∧ key ∈ keys

theorem lists_iff {walker : Walker} {node : Json} {key : String} :
    walker.Lists node key ↔ key ∈ walker.keysOf node := by
  unfold Lists keysOf
  cases htag : node.tag? with
  | none => simp
  | some tag =>
    cases hkeys : walker.registry.keys? tag with
    | none => simp [hkeys]
    | some keys => simp [hkeys]

/-- One node is a child of another: it is the object in a field that the registry lists for the tag of the
other, or an object among the items of the sequence in such a field. -/
def IsChild (walker : Walker) (parent child : Json) : Prop :=
  ∃ key, walker.Lists parent key ∧
    (parent.field key = .node child ∨
      ∃ items, parent.field key = .sequence items ∧ child ∈ items ∧ child.isNode = true)

theorem isChild_of_follow {walker : Walker} {parent child : Json} {edge : Edge}
    (hfield : edge.field ∈ walker.keysOf parent) (hfollow : parent.follow edge = some child) :
    walker.IsChild parent child := by
  refine ⟨edge.field, lists_iff.2 hfield, ?_⟩
  rcases Json.follow_eq_some_iff.1 hfollow with ⟨-, hnode⟩ | ⟨items, i, -, hitems, hitem, hnode⟩
  · exact Or.inl hnode
  · exact Or.inr ⟨items, hitems, List.mem_of_getElem? hitem, hnode⟩

/-! ## Addresses -/

/-- How a node is found from the root: the edge to it, the nodes above it and the edges to these, nearest
first. Each edge leaves from a field that the registry lists for the node there. -/
inductive Addressed (walker : Walker) (root : Json) :
    Json → Option Edge → List Json → List (Option Edge) → Prop where
  | root : Addressed walker root root none [] []
  | child {parent child : Json} {edge : Edge} {reached : Option Edge} {above : List Json}
      {steps : List (Option Edge)} (hparent : Addressed walker root parent reached above steps)
      (hfield : edge.field ∈ walker.keysOf parent) (hfollow : parent.follow edge = some child) :
      Addressed walker root child (some edge) (parent :: above) (reached :: steps)

namespace Addressed

variable {walker : Walker} {root node : Json} {edge : Option Edge} {above : List Json}
  {steps : List (Option Edge)}

/-- A node is the root, or the child of the first node above it. -/
theorem eq_root_or_child (h : walker.Addressed root node edge above steps) :
    (node = root ∧ edge = none ∧ above = []) ∨
      ∃ parent outer e, above = parent :: outer ∧ edge = some e ∧
        e.field ∈ walker.keysOf parent ∧ parent.follow e = some node := by
  cases h with
  | root => exact Or.inl ⟨rfl, rfl, rfl⟩
  | child hparent hfield hfollow => exact Or.inr ⟨_, _, _, rfl, rfl, hfield, hfollow⟩

/-- The nodes above a node are joined to it and to each other as parents and children. -/
theorem isChain (h : walker.Addressed root node edge above steps) :
    (above.reverse ++ [node]).IsChain walker.IsChild := by
  -- read innermost first, the chain grows at its head, as the address does
  rw [← List.reverse_cons, List.isChain_reverse]
  induction h with
  | root => exact List.isChain_singleton _
  | child hparent hfield hfollow ih =>
    exact List.isChain_cons_cons.2 ⟨isChild_of_follow hfield hfollow, ih⟩

theorem getLast_above (h : walker.Addressed root node edge above steps) :
    (node :: above).getLast? = some root := by
  induction h with
  | root => rfl
  | child hparent hfield hfollow ih => rw [List.getLast?_cons_cons, ih]

theorem reachable (h : walker.Addressed root node edge above steps) (hroot : root.isNull = false) :
    walker.Reachable root (Place.mk edge steps).path node := by
  induction h with
  | root => exact .root hroot
  | child hparent hfield hfollow ih =>
    rw [Place.path_child]
    exact .child ih hfield hfollow

theorem length_path (h : walker.Addressed root node edge above steps) :
    (Place.mk edge steps).path.length = above.length := by
  induction h with
  | root => rfl
  | child hparent hfield hfollow ih =>
    rw [Place.path_child, List.length_append, ih]
    rfl

end Addressed

/-! ## Anchored stacks -/

/-- A stack whose frames stand where they belong, with the open nodes and the edges to them, innermost
first. A node to be entered is a child of the innermost open node, or the root. A `leave` frame is that of
the innermost open node, which was entered under its tag and within the limit; under it lies what was on
the stack before. -/
inductive Anchored (walker : Walker) (root : Json) :
    List Frame → List Json → List (Option Edge) → Prop where
  | empty : Anchored walker root [] [] []
  | enter {node : Json} {edge : Option Edge} {rest : List Frame} {above : List Json}
      {steps : List (Option Edge)} (hnode : walker.Addressed root node edge above steps)
      (hrest : Anchored walker root rest above steps) :
      Anchored walker root (.enter node edge :: rest) above steps
  | leave {node : Json} {nodeType : String} {edge : Option Edge} {rest : List Frame}
      {above : List Json} {steps : List (Option Edge)}
      (hnode : walker.Addressed root node edge above steps) (htag : node.tag? = some nodeType)
      (hdepth : walker.exceeded? above.length = none)
      (hrest : Anchored walker root rest above steps) :
      Anchored walker root (.leave node nodeType edge :: rest) (node :: above) (edge :: steps)

/-- The frames of the children of an open node may be put on its stack. -/
theorem Anchored.childFrames {walker : Walker} {root node : Json} {edge : Option Edge}
    {rest : List Frame} {above : List Json} {steps : List (Option Edge)}
    (hnode : walker.Addressed root node edge above steps)
    (hrest : Anchored walker root rest (node :: above) (edge :: steps)) :
    ∀ children : List (Edge × Json), (∀ child ∈ children, child ∈ walker.children node) →
      Anchored walker root (childFrames children ++ rest) (node :: above) (edge :: steps) := by
  intro children
  induction children with
  | nil => exact fun _ => hrest
  | cons child others ih =>
    intro hchildren
    obtain ⟨hchild, hothers⟩ := List.forall_mem_cons.1 hchildren
    obtain ⟨hfield, hfollow⟩ := Json.mem_children_iff.1 hchild
    exact .enter (.child hnode hfield hfollow) (ih hothers)

end Walker

namespace Machine

/-- The stack of a machine is anchored at its open nodes. -/
def Anchored (walker : Walker) (root : Json) (machine : Machine σ) : Prop :=
  walker.Anchored root machine.stack machine.ancestors.nearestFirst machine.steps

theorem anchored_start (walker : Walker) (root : Json) (state : σ) :
    Anchored walker root (start root state) :=
  .enter .root .empty

section Top

variable {walker : Walker} {root node : Json} {machine : Machine σ} {nodeType : String}
  {edge : Option Edge} {rest : List Frame}

/-- A node to be entered has its address below the open nodes. -/
theorem Anchored.top_enter (h : Anchored walker root machine)
    (hstack : machine.stack = .enter node edge :: rest) :
    walker.Addressed root node edge machine.ancestors.nearestFirst machine.steps ∧
      walker.Anchored root rest machine.ancestors.nearestFirst machine.steps := by
  rw [Anchored, hstack] at h
  cases h with
  | enter hnode hrest => exact ⟨hnode, hrest⟩

/-- A node to be left is the innermost open node, and has its address below the others. -/
theorem Anchored.top_leave (h : Anchored walker root machine)
    (hstack : machine.stack = .leave node nodeType edge :: rest) :
    node.tag? = some nodeType ∧
      walker.Addressed root node edge machine.ancestors.pop.nearestFirst machine.steps.tail ∧
      walker.Anchored root rest machine.ancestors.pop.nearestFirst machine.steps.tail := by
  rw [Anchored, hstack] at h
  rw [Ancestry.pop]
  dsimp only
  -- the case analysis needs variables where the relation has the open nodes and their edges
  generalize machine.ancestors.nearestFirst = nodes at h
  generalize machine.steps = edges at h
  cases h with
  | leave hnode htag hdepth hrest => exact ⟨htag, hnode, hrest⟩

/-- A step keeps the stack anchored. -/
theorem anchored_step {visitor : Visitor σ ε} {next : Machine σ} (h : Anchored walker root machine)
    (hstep : Steps walker visitor machine next) : Anchored walker root next := by
  cases hstep with
  | @enter node edge rest found action hstack hfound hanswer haction =>
    obtain ⟨hnode, hrest⟩ := h.top_enter hstack
    obtain ⟨htag, hdepth, -⟩ := Walker.examine_eq_ok_iff.1 hfound
    rw [machine.ancestors.depth_eq] at hdepth
    -- the node is open now, and its children lie on the frame that closes it
    have hopen := Walker.Anchored.leave hnode htag hdepth hrest
    show walker.Anchored root (machine.descend _ node edge found action rest).stack
      (node :: machine.ancestors.nearestFirst) (edge :: machine.steps)
    rw [stack_descend]
    refine hopen.childFrames hnode _ fun child hchild => ?_
    rw [Walker.children, ← Walker.keys_of_examine hfound]
    exact Walker.mem_children_of_visited hchild
  | leave hstack hanswer haction => exact (h.top_leave hstack).2.2

end Top

end Machine

/-! ## The contexts of a walk -/

/-- A call whose context is the address of its node. -/
def Walker.Places (walker : Walker) (root : Json) (call : Call) : Prop :=
  call.node.tag? = some call.context.nodeType ∧
    ∃ steps, walker.Addressed root call.node call.context.edge
      call.context.ancestors.nearestFirst steps

/-- Every call of a walk has the address of its node as its context. -/
theorem Walker.places_of_mem_calls {walker : Walker} {visitor : Visitor σ ε} {root : Json} {state : σ}
    {call : Call} (h : call ∈ (walker.walk visitor root state).calls) : walker.Places root call := by
  unfold walk at h
  split at h
  · cases h
  · refine Machine.forall_calls_of_invariant (fun _ _ => Machine.anchored_step) ?_ _
      (Machine.anchored_start walker root state) nofun call h
    intro machine call hanchored hmakes
    cases hmakes with
    | enter hstack hfound => exact ⟨tag_of_examine hfound, _, (hanchored.top_enter hstack).1⟩
    | leave hstack =>
      obtain ⟨htag, hnode, -⟩ := hanchored.top_leave hstack
      exact ⟨htag, _, hnode⟩

/-- In every walk the context of a call is the address of its node. At the root nothing is above the node,
and it has neither field nor index. Elsewhere the nodes above start at the root and form a chain of parents
and children down to the node, and in the last of them the field holds the node, alone or at the index. The
node is visited under its tag. -/
theorem Walker.walk_calls_addressed (walker : Walker) (visitor : Visitor σ ε) (root : Json)
    (state : σ) (call : Call) (h : call ∈ (walker.walk visitor root state).calls) :
    call.context.depth = call.context.parents.length ∧
    (call.context.parents = [] →
      call.node = root ∧ call.context.key? = none ∧ call.context.index? = none) ∧
    (call.context.parents ≠ [] →
      call.context.parents.head? = some root ∧
      (call.context.parents ++ [call.node]).IsChain walker.IsChild ∧
      ∃ parent key, call.context.parent? = some parent ∧ call.context.key? = some key ∧
        walker.Lists parent key ∧
        ((call.context.index? = none ∧ parent.field key = .node call.node) ∨
          ∃ items i, call.context.index? = some i ∧ parent.field key = .sequence items ∧
            items[i]? = some call.node ∧ call.node.isNode = true)) ∧
    call.node.get? "type" = some (.string call.context.nodeType) ∧ call.context.nodeType ≠ "" := by
  obtain ⟨htag, steps, haddress⟩ := places_of_mem_calls h
  rcases call with ⟨phase, node, ⟨above, edge, nodeType⟩⟩
  refine ⟨?_, ?_, ?_, Json.tag?_eq_some_iff.1 htag⟩
  · rw [Context.depth, Context.parents, Ancestry.rootFirst, List.length_reverse]
    exact above.depth_eq
  · intro hparents
    rcases haddress.eq_root_or_child with ⟨hnode, hedge, -⟩ | ⟨parent, outer, e, habove, -⟩
    · cases hedge
      exact ⟨hnode, rfl, rfl⟩
    · -- a child has its parent above it
      rw [Context.parents, Ancestry.rootFirst, List.reverse_eq_nil_iff, habove] at hparents
      cases hparents
  · intro hparents
    rcases haddress.eq_root_or_child with ⟨-, -, hnone⟩ |
      ⟨parent, outer, e, habove, hedge, hfield, hfollow⟩
    · rw [Context.parents, Ancestry.rootFirst, hnone] at hparents
      exact absurd rfl hparents
    · cases hedge
      have hlast := haddress.getLast_above
      refine ⟨?_, haddress.isChain, parent, e.field, ?_, rfl, lists_iff.2 hfield,
        Json.follow_eq_some_iff.1 hfollow⟩
      · rw [habove, List.getLast?_cons_cons, ← habove] at hlast
        rw [Context.parents, Ancestry.rootFirst, List.head?_reverse]
        exact hlast
      · rw [Context.parent?, habove]
        rfl

/-- A walker that knows blocks and empty statements, down to depth one. -/
def Walker.blocks : Walker :=
  ⟨⟨.ofList [("Block", ["body"]), ("Empty", [])]⟩, .strict, some 1⟩

/-- A block whose only statement stands behind a hole and a scalar. -/
def Walker.gapped : Json :=
  .object [("body", .array [.null, .bool true, .object [("type", .string "Empty")]]),
    ("type", .string "Block")]

/-- The call that leaves this statement. -/
def Walker.gappedCall : Call :=
  ⟨.leave, .object [("type", .string "Empty")], Ancestry.none.push gapped,
    some ⟨"body", some 2⟩, "Empty"⟩

/-- The index of a statement behind a hole and a scalar counts both of them. -/
theorem Walker.walk_calls_addressed_gapped :
    gappedCall ∈ (blocks.walk (.observer (ε := Empty) fun _ _ _ n => n + 1) gapped 0).calls ∧
      ∃ parent items, gappedCall.context.parent? = some parent ∧
        parent.field "body" = .sequence items ∧ items[2]? = some gappedCall.node := by
  have hcall : (blocks.walk (.observer (ε := Empty) fun _ _ _ n => n + 1) gapped 0).calls[2]? =
      some gappedCall := by cbv
  have hmem := List.mem_of_getElem? hcall
  have hparents : gappedCall.context.parents ≠ [] := List.cons_ne_nil gapped []
  refine ⟨hmem, ?_⟩
  obtain ⟨-, -, parent, key, hparent, hkey, -, hplace⟩ :=
    (walk_calls_addressed blocks _ gapped 0 gappedCall hmem).2.2.1 hparents
  cases hkey
  rcases hplace with ⟨hindex, -⟩ | ⟨items, i, hindex, hitems, hitem, -⟩
  · cases hindex
  · cases hindex
    exact ⟨parent, items, hparent, hitems, hitem⟩

end SyntaxWalk
