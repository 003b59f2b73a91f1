import Mathlib.Data.List.Perm.Basic
import SyntaxWalk.Proofs.Walk.Preorder

/-!
# Tours

The tour of a tree is the depth-first order of its visits, written down without regard to faults: each
node is entered, its children are toured in order, and it is left. Each stop of the tour is a call with
the path at which it happens.

A tour contains the tours of the nodes that it enters, each in one piece (`tour_from_enter`).

The stops of a tour are related to reachable paths in both directions. Each stop is at a reachable node
(`reachable_of_mem_depthFirst`), and the stops that enter nodes are at the paths of the listing, in its
order (`pathsIn_enter_tour`). A path is left as often as it is entered (`perm_pathsIn_tour`).
-/

set_option autoImplicit false

namespace SyntaxWalk

/-! ## The stops of a tour -/

/-- A call and the path at which it is made. -/
structure Stop where
  path : Path
  call : Call

/-- The stop at a node in the given phase. -/
def Stop.atNode (path : Path) (above : Ancestry) (edge : Option Edge) (node : Json) (phase : Phase) :
    Stop :=
  ⟨path, phase, node, above, edge, node.tag?.getD ""⟩

/-- The stops at a node and everything below it, in depth-first order. -/
def Walker.tour (walker : Walker) (node : Json) (edge : Option Edge) (above : Ancestry)
    (path : Path) : List Stop :=
  .atNode path above edge node .enter ::
    ((walker.children node).attach.flatMap (fun child =>
      walker.tour child.val.2 (some child.val.1) (above.push node) (path ++ [child.val.1])) ++
      [.atNode path above edge node .leave])
termination_by sizeOf node
decreasing_by exact Json.sizeOf_children_lt child.property

/-- The tour of a node, from the tours of its children. -/
theorem Walker.tour_eq (walker : Walker) (node : Json) (edge : Option Edge) (above : Ancestry)
    (path : Path) :
    walker.tour node edge above path =
      .atNode path above edge node .enter ::
        ((walker.children node).flatMap (fun child =>
          walker.tour child.2 (some child.1) (above.push node) (path ++ [child.1])) ++
          [.atNode path above edge node .leave]) := by
  have hmap := @List.attach_map_val _ _ (walker.children node) fun child =>
    walker.tour child.2 (some child.1) (above.push node) (path ++ [child.1])
  rw [tour, List.flatMap_def, hmap, ← List.flatMap_def]

/-- The tour of a whole tree. -/
def Walker.depthFirst (walker : Walker) (root : Json) : List Stop :=
  if root.isNull then [] else walker.tour root none .none []

namespace Walker

/-! ## Tours within a tour -/

/-- A tour depends on the registry of a walker and on none of its other rules. -/
theorem tour_of_registry {walker other : Walker} (h : walker.registry = other.registry) (node : Json) :
    ∀ (edge : Option Edge) (above : Ancestry) (path : Path),
      walker.tour node edge above path = other.tour node edge above path := by
  induction node using Json.children_induction with
  | step node ih =>
    intro edge above path
    have hchildren : walker.children node = other.children node := by
      rw [children, children, keysOf, keysOf, h]
    rw [tour_eq, tour_eq, hchildren]
    congr 2
    apply List.flatMap_congr
    intro child hchild
    exact ih _ child hchild _ _ _

/-- Along a tour a node has as many nodes above it as there are edges in its path. -/
theorem depth_of_mem_tour {walker : Walker} (node : Json) :
    ∀ (edge : Option Edge) (above : Ancestry) (path : Path), above.depth = path.length →
      ∀ stop ∈ walker.tour node edge above path, stop.call.context.depth = stop.path.length := by
  induction node using Json.children_induction with
  | step node ih =>
    intro edge above path hdepth stop hstop
    rw [tour_eq] at hstop
    rcases List.mem_cons.1 hstop with rfl | hstop
    · exact hdepth
    · rcases List.mem_append.1 hstop with hbelow | hleave
      · obtain ⟨child, hchild, hmem⟩ := List.mem_flatMap.1 hbelow
        have hdepth' : (above.push node).depth = (path ++ [child.1]).length := by
          rw [List.length_append, ← hdepth]
          rfl
        exact ih _ child hchild _ _ _ hdepth' stop hmem
      · rw [List.mem_singleton.1 hleave]
        exact hdepth

/-- From the entry of a node on, a tour goes on with the tour of this node. -/
theorem tour_from_enter {walker : Walker} (node : Json) :
    ∀ (edge : Option Edge) (above : Ancestry) (path : Path) {before after : List Stop} {stop : Stop},
      walker.tour node edge above path = before ++ stop :: after → stop.call.phase = .enter →
      ∃ rest, stop :: after = walker.tour stop.call.node stop.call.context.edge
        stop.call.context.ancestors stop.path ++ rest := by
  induction node using Json.children_induction with
  | step node ih =>
    intro edge above path before after stop hstops hphase
    cases before with
    | nil =>
      rw [List.nil_append] at hstops
      rw [← hstops]
      rw [tour_eq] at hstops
      cases hstops
      exact ⟨[], (List.append_nil _).symm⟩
    | cons first before =>
      rw [tour_eq, List.cons_append, List.cons.injEq] at hstops
      -- the last stop leaves the node, so that an entry lies in the tour of a child
      obtain ⟨more, hbelow, hafter⟩ : ∃ more, (walker.children node).flatMap (fun child =>
          walker.tour child.2 (some child.1) (above.push node) (path ++ [child.1])) =
            before ++ stop :: more ∧ after = more ++ [.atNode path above edge node .leave] := by
        rcases List.append_eq_append_iff.1 hstops.2 with ⟨more, -, hlast⟩ | ⟨more, hbelow, hrest⟩
        · cases more with
          | nil =>
            cases hlast
            cases hphase
          | cons s more => simp at hlast
        · cases more with
          | nil =>
            cases hrest
            cases hphase
          | cons s more =>
            cases hrest
            exact ⟨more, hbelow, rfl⟩
      obtain ⟨front, child, back, left, right, hchildren, hchild, -, rfl⟩ :=
        InOrder.split_flatMap hbelow
      have hmem : child ∈ walker.children node := by
        rw [hchildren]
        exact List.mem_append_right _ List.mem_cons_self
      obtain ⟨rest, hrest⟩ := ih _ child hmem _ _ _ hchild hphase
      refine ⟨rest ++ (back.flatMap (fun child => walker.tour child.2 (some child.1) (above.push node)
        (path ++ [child.1])) ++ [.atNode path above edge node .leave]), ?_⟩
      rw [hafter, List.append_assoc, ← List.cons_append, hrest, List.append_assoc]

theorem depthFirst_eq_tour {walker : Walker} {root : Json} {stop : Stop}
    (h : stop ∈ walker.depthFirst root) : walker.depthFirst root = walker.tour root none .none [] := by
  rw [depthFirst] at h ⊢
  split at h
  · cases h
  · rename_i hnull
    rw [if_neg hnull]

theorem depth_of_mem_depthFirst {walker : Walker} {root : Json} {stop : Stop}
    (h : stop ∈ walker.depthFirst root) : stop.call.context.depth = stop.path.length := by
  apply depth_of_mem_tour root none .none []
  · rfl
  · rwa [depthFirst_eq_tour h] at h

/-! ## Stops and reachable nodes -/

/-- Every stop of the tour of a reachable node is at a reachable node. -/
theorem reachable_of_mem_tour {walker : Walker} {root : Json} (node : Json) :
    ∀ (edge : Option Edge) (above : Ancestry) (path : Path),
      walker.Reachable root path node → ∀ stop ∈ walker.tour node edge above path,
        walker.Reachable root stop.path stop.call.node := by
  induction node using Json.children_induction with
  | step node ih =>
    intro edge above path hnode stop hstop
    rw [tour_eq] at hstop
    rcases List.mem_cons.1 hstop with rfl | hstop
    · exact hnode
    · rcases List.mem_append.1 hstop with hbelow | hleave
      · obtain ⟨⟨e, child⟩, hchild, hmem⟩ := List.mem_flatMap.1 hbelow
        obtain ⟨hfield, hfollow⟩ := Json.mem_children_iff.1 hchild
        exact ih _ (e, child) hchild _ _ _ (.child hnode hfield hfollow) stop hmem
      · rw [List.mem_singleton.1 hleave]
        exact hnode

theorem reachable_of_mem_depthFirst {walker : Walker} {root : Json} {stop : Stop}
    (h : stop ∈ walker.depthFirst root) : walker.Reachable root stop.path stop.call.node := by
  unfold depthFirst at h
  split at h
  · cases h
  · rename_i hnull
    exact reachable_of_mem_tour root none .none [] (.root (Bool.eq_false_iff.2 hnull)) stop h

end Walker

/-- The paths of the stops in the given phase. -/
def Stop.pathsIn (phase : Phase) (stops : List Stop) : List Path :=
  (stops.filter fun stop => stop.call.phase = phase).map Stop.path

theorem Stop.mem_pathsIn {phase : Phase} {stops : List Stop} {path : Path} :
    path ∈ pathsIn phase stops ↔
      ∃ stop ∈ stops, stop.call.phase = phase ∧ stop.path = path := by
  simp [pathsIn, and_assoc]

theorem Stop.pathsIn_append (phase : Phase) (first second : List Stop) :
    pathsIn phase (first ++ second) = pathsIn phase first ++ pathsIn phase second := by
  rw [pathsIn, List.filter_append, List.map_append]
  rfl

theorem Stop.pathsIn_flatMap {α : Type} (phase : Phase) (list : List α) (f : α → List Stop) :
    pathsIn phase (list.flatMap f) = list.flatMap fun a => pathsIn phase (f a) := by
  induction list with
  | nil => rfl
  | cons a rest ih => rw [List.flatMap_cons, List.flatMap_cons, pathsIn_append, ih]

namespace Walker

/-- A tour enters the paths of the listing, in its order. -/
theorem pathsIn_enter_tour (walker : Walker) (node : Json) :
    ∀ (edge : Option Edge) (above : Ancestry) (path : Path),
      Stop.pathsIn .enter (walker.tour node edge above path) =
        (walker.preorder node).map (path ++ ·) := by
  induction node using Json.children_induction with
  | step node ih =>
    intro edge above path
    have hbelow : Stop.pathsIn .enter ((walker.children node).flatMap fun child =>
          walker.tour child.2 (some child.1) (above.push node) (path ++ [child.1])) =
        ((walker.children node).flatMap fun child =>
          (walker.preorder child.2).map (child.1 :: ·)).map (path ++ ·) := by
      rw [Stop.pathsIn_flatMap, List.map_flatMap]
      apply List.flatMap_congr
      intro child hchild
      rw [ih _ child hchild, List.map_map]
      apply List.map_congr_left
      intro rest _
      rw [List.append_assoc]
      rfl
    have hroot : Stop.pathsIn .enter (walker.tour node edge above path) =
        path :: (Stop.pathsIn .enter ((walker.children node).flatMap fun child =>
          walker.tour child.2 (some child.1) (above.push node) (path ++ [child.1])) ++ []) := by
      rw [tour_eq, ← List.singleton_append, Stop.pathsIn_append, Stop.pathsIn_append]
      rfl
    rw [hroot, hbelow, preorder_eq, List.map_cons, List.append_nil, List.append_nil]

/-- A tour leaves the paths that it enters, each as often. -/
theorem perm_pathsIn_tour (walker : Walker) (node : Json) :
    ∀ (edge : Option Edge) (above : Ancestry) (path : Path),
      (Stop.pathsIn .leave (walker.tour node edge above path)).Perm
        (Stop.pathsIn .enter (walker.tour node edge above path)) := by
  induction node using Json.children_induction with
  | step node ih =>
    intro edge above path
    rw [tour_eq, ← List.singleton_append]
    simp only [Stop.pathsIn_append, Stop.pathsIn_flatMap]
    -- the node is left at the end and entered at the start
    show ([] ++ (_ ++ [path])).Perm ([path] ++ (_ ++ []))
    rw [List.nil_append, List.append_nil]
    refine List.perm_append_comm.trans (List.Perm.append_left [path] ?_)
    apply List.Perm.flatMap_left
    intro child hchild
    exact ih _ child hchild _ _ _

theorem pathsIn_enter_depthFirst {walker : Walker} {root : Json} (hroot : root.isNull = false) :
    Stop.pathsIn .enter (walker.depthFirst root) = walker.preorder root := by
  rw [depthFirst, hroot]
  have htour := walker.pathsIn_enter_tour root none .none []
  simpa using htour

end Walker

end SyntaxWalk
