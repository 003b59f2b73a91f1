import Mathlib
import SyntaxWalk.Proofs.Walk.Subtree

/-!
# Children are taken field by field

The machine puts the children of a node on its stack from the last field to the first. In the calls of a completed
walk they come out in the order of the fields: between the entry of a node and its end, the nodes entered right
below it are its children, field by field (`entered_below`). Calls of which this holds, and in which each node
but the root is found in a field of its parent, keep to a table of fields (`KeepsTo`). The calls of a completed
strict walk keep to the registry (`keepsTo_of_completed`).
-/

set_option autoImplicit false

namespace SyntaxWalk

universe u v

variable {σ : Type u} {ε : Type v}

/-! ## The entries at a depth -/

/-- The calls that enter a node at the given depth. -/
def entriesAt (depth : ℕ) (calls : List Call) : List Call :=
  calls.filter fun call => call.phase = .enter ∧ call.context.depth = depth

theorem entriesAt_append (depth : ℕ) (first second : List Call) :
    entriesAt depth (first ++ second) = entriesAt depth first ++ entriesAt depth second :=
  List.filter_append _ _

theorem entriesAt_eq_nil {depth : ℕ} {calls : List Call} (h : ∀ call ∈ calls, depth < call.context.depth) :
    entriesAt depth calls = [] := by
  rw [entriesAt, List.filter_eq_nil_iff]
  intro call hcall hentry
  have hdepth := (of_decide_eq_true hentry).2
  exact absurd (h call hcall) (by omega)

namespace Walker

section Tour

variable (walker : Walker) (node : Json) (edge : Option Edge) (above : Ancestry) (path : Path)

/-- No stop of a tour lies above its node. -/
theorem le_depth_of_mem_tour : ∀ call ∈ (walker.tour node edge above path).map Stop.call,
    above.depth ≤ call.context.depth := by
  induction node using Json.children_induction generalizing edge above path with
  | step node ih =>
    intro call hcall
    rw [tour_eq, List.map_cons, List.map_append, List.mem_cons, List.mem_append] at hcall
    rcases hcall with rfl | hbelow | hleave
    · exact Nat.le_refl _
    · obtain ⟨stop, hstop, rfl⟩ := List.mem_map.1 hbelow
      obtain ⟨child, hchild, hmem⟩ := List.mem_flatMap.1 hstop
      have hdepth := ih _ child hchild _ (above.push node) _ _ (List.mem_map_of_mem hmem)
      exact (Nat.le_succ above.depth).trans hdepth
    · rw [List.mem_singleton.1 hleave]
      exact Nat.le_refl _

/-- At the depth of its node, a tour enters the node and nothing else. -/
theorem entriesAt_tour :
    entriesAt above.depth ((walker.tour node edge above path).map Stop.call) =
      [(Stop.atNode path above edge node .enter).call] := by
  have hbelow : entriesAt above.depth (((walker.children node).flatMap fun child =>
      walker.tour child.2 (some child.1) (above.push node) (path ++ [child.1])).map Stop.call) = [] := by
    -- everything below the node lies deeper
    apply entriesAt_eq_nil
    intro call hcall
    obtain ⟨stop, hstop, rfl⟩ := List.mem_map.1 hcall
    obtain ⟨child, -, hmem⟩ := List.mem_flatMap.1 hstop
    exact walker.le_depth_of_mem_tour child.2 _ (above.push node) _ _ (List.mem_map_of_mem hmem)
  rw [tour_eq, List.map_cons, List.map_append, ← List.singleton_append, entriesAt_append, entriesAt_append,
    hbelow]
  simp [entriesAt, Stop.atNode, Context.depth]

/-- Right below its node, a tour enters the children of the node, in their order. -/
theorem entriesAt_tour_succ :
    entriesAt (above.depth + 1) ((walker.tour node edge above path).map Stop.call) =
      (walker.children node).map fun child =>
        (Stop.atNode (path ++ [child.1]) (above.push node) (some child.1) child.2 .enter).call := by
  have hbelow : ∀ children : List (Edge × Json), entriesAt (above.depth + 1)
      ((children.flatMap fun child =>
        walker.tour child.2 (some child.1) (above.push node) (path ++ [child.1])).map Stop.call) =
      children.map fun child =>
        (Stop.atNode (path ++ [child.1]) (above.push node) (some child.1) child.2 .enter).call := by
    intro children
    induction children with
    | nil => rfl
    | cons child rest ih =>
      -- of the tour of a child, only its entry lies at this depth
      have hchild := walker.entriesAt_tour child.2 (some child.1) (above.push node) (path ++ [child.1])
      rw [List.flatMap_cons, List.map_append, entriesAt_append, ih, List.map_cons]
      exact congrArg (· ++ _) hchild
  rw [tour_eq, List.map_cons, List.map_append, ← List.singleton_append, entriesAt_append, entriesAt_append,
    hbelow]
  simp [entriesAt, Stop.atNode, Context.depth]

end Tour

/-- In the tour of a tree, from the entry of a node to its end, the nodes entered right below it are its
children, in their order. -/
theorem entered_below {walker : Walker} {root : Json} {k : ℕ} {entry : Call}
    (hentry : ((walker.depthFirst root).map Stop.call)[k]? = some entry) (hphase : entry.phase = .enter) :
    (entriesAt (entry.context.depth + 1)
        (untilClosed [] (((walker.depthFirst root).map Stop.call).drop k))).map
      (fun call => (call.context.edge, call.node)) =
        (walker.children entry.node).map fun child => (some child.1, child.2) := by
  rw [List.getElem?_map, Option.map_eq_some_iff] at hentry
  obtain ⟨stop, hstop, rfl⟩ := hentry
  have htour := depthFirst_eq_tour (List.mem_of_getElem? hstop)
  have hdrop : (walker.depthFirst root).drop k = stop :: (walker.depthFirst root).drop (k + 1) := by
    obtain ⟨hk, rfl⟩ := List.getElem?_eq_some_iff.1 hstop
    exact List.drop_eq_getElem_cons hk
  -- the tour of the tree goes on with the tour of this node
  have hsplit : walker.tour root none .none [] =
      (walker.depthFirst root).take k ++ stop :: (walker.depthFirst root).drop (k + 1) := by
    rw [← hdrop, List.take_append_drop, htour]
  obtain ⟨rest, hrest⟩ := tour_from_enter root none .none [] hsplit hphase
  rw [← List.map_drop, hdrop, hrest, List.map_append, untilClosed_tour]
  show (entriesAt (stop.call.context.ancestors.depth + 1) _).map _ = _
  rw [entriesAt_tour_succ, List.map_map]
  rfl

end Walker

/-! ## Keeping to a table of fields -/

/-- The calls of a walk keep to the fields that a table gives for the types. -/
structure KeepsTo (fieldsOf : String → Option (List String)) (root : Json) (calls : List Call) : Prop where
  /-- Each node is the root, or is found by its edge in a field of its parent that the table gives for the tag of
  the parent. -/
  parents : ∀ call ∈ calls, (call.context.parent? = none ∧ call.node = root) ∨
    ∃ parent tag fields edge, call.context.parent? = some parent ∧ call.context.edge = some edge ∧
      parent.tag? = some tag ∧ fieldsOf tag = some fields ∧ edge.field ∈ fields ∧
      parent.follow edge = some call.node
  /-- From the entry of a node to its end, the nodes entered right below it are the objects in the fields that the
  table gives for its tag, in the order of the fields. -/
  siblings : ∀ k entry, calls[k]? = some entry → entry.phase = .enter →
    ∃ tag fields, entry.node.tag? = some tag ∧ fieldsOf tag = some fields ∧
      (entriesAt (entry.context.depth + 1) (untilClosed [] (calls.drop k))).map
        (fun call => (call.context.edge, call.node)) =
          (entry.node.children fields).map fun child => (some child.1, child.2)

namespace Walker

variable {walker : Walker} {root : Json}

/-- A strict walk passes a node only if its tag has an entry. -/
theorem keys?_of_passes (hstrict : walker.unknownTypes = .strict) {stop : Stop} (hpass : walker.Passes stop)
    (hphase : stop.call.phase = .enter) :
    ∃ tag fields, stop.call.node.tag? = some tag ∧ walker.registry.keys? tag = some fields := by
  obtain ⟨tag, htext, hne, hknown⟩ := (admits_iff.2 (hpass hphase)).tagged
  have htag := Json.tag?_eq_some_iff.2 ⟨htext, hne⟩
  cases hkeys : walker.registry.keys? tag with
  | none => exact absurd (.unknownType htag hkeys hstrict) (hpass hphase _)
  | some fields => exact ⟨tag, fields, htag, hkeys⟩

/-- The calls of a completed strict walk keep to the registry. -/
theorem keepsTo_of_completed (hstrict : walker.unknownTypes = .strict)
    {note : Phase → Json → Context → σ → σ} {state : σ}
    (h : (walker.walk (.observer (ε := ε) note) root state).result = .ok .completed) :
    KeepsTo walker.registry.keys? root (walker.walk (.observer (ε := ε) note) root state).calls := by
  rcases walker.walk_observed (ε := ε) note root state with ⟨-, hpass, hcalls⟩ |
    ⟨_, _, _, fault, -, -, -, hresult, -⟩
  · constructor
    · intro call hcall
      obtain ⟨-, steps, haddress⟩ := places_of_mem_calls hcall
      rcases haddress.eq_root_or_child with ⟨hroot, -, habove⟩ |
        ⟨parent, outer, edge, habove, hedge, hfield, hfollow⟩
      · left
        exact ⟨by rw [Context.parent?, habove]; rfl, hroot⟩
      · right
        obtain ⟨tag, fields, htag, hkeys, hmem⟩ := lists_iff.2 hfield
        have hparent : call.context.parent? = some parent := by
          rw [Context.parent?, habove]
          rfl
        exact ⟨parent, tag, fields, edge, hparent, hedge, htag, hkeys, hmem, hfollow⟩
    · intro k entry hentry hphase
      rw [hcalls] at hentry ⊢
      have hmem := List.mem_of_getElem? hentry
      obtain ⟨stop, hstop, rfl⟩ := List.mem_map.1 hmem
      -- the node has passed, so that its tag has an entry, in which its children are looked for
      obtain ⟨tag, fields, htag, hkeys⟩ := keys?_of_passes hstrict (hpass stop hstop) hphase
      have hchildren : walker.children stop.call.node = stop.call.node.children fields := by
        rw [children, keysOf, htag]
        dsimp only
        rw [hkeys, Option.getD_some]
      refine ⟨tag, fields, htag, hkeys, ?_⟩
      rw [entered_below hentry hphase, hchildren]
  · rw [hresult] at h
    cases h

end Walker

end SyntaxWalk
