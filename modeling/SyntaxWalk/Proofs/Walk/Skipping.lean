import Mathlib
import SyntaxWalk.Proofs.Walk.Observer
import SyntaxWalk.Proofs.Walk.Pairing
import SyntaxWalk.Proofs.Walk.Relaxation

/-!
# Skipping nodes

A visitor that skips some nodes and otherwise goes on makes the calls of a visitor that always goes on, less
those below the nodes that it skips. Which calls these are is read off the calls that are open when they are
made (`Call.isBelow`), so that a node below two skipped ones counts once, and the call that leaves a skipped
node stays.

Both walks follow the tour of the tree. A tour closes what it opens (`foldl_turn_tour`). Below a skipped node
nothing of it remains (`tourOutside_eq_nil`), and elsewhere the visitor that skips makes the remaining calls
one after the other (`visit_skipping`). The statement about whole trees is `walk_skipping`.
-/

set_option autoImplicit false

namespace SyntaxWalk

universe u v

variable {σ τ : Type u} {ε : Type v}

/-! ## Calls below a node -/

/-- The calls that are open around the place of a call. The entry of a node that is left is open too, but not
around it. -/
def Call.enclosing (opened : List Call) (call : Call) : List Call :=
  match call.phase with
  | .enter => opened
  | .leave => opened.tail

/-- Does the predicate apply to the node of one of the calls? -/
def appliesToSome (skips : Json → Context → Bool) (opened : List Call) : Bool :=
  opened.any fun entered => skips entered.node entered.context

/-- Is the call made strictly below an entered node to which the predicate applies? -/
def Call.isBelow (skips : Json → Context → Bool) (opened : List Call) (call : Call) : Bool :=
  appliesToSome skips (call.enclosing opened)

/-- The calls that are not made strictly below a node to which the predicate applies, each judged by the calls
that are open before it. -/
def callsOutside (skips : Json → Context → Bool) (calls : List Call) : List Call :=
  (calls.zipIdx.filter fun entry =>
    !entry.1.isBelow skips (openCalls (calls.take entry.2))).map Prod.fst

/-- The same calls, found in one pass after the given calls were opened. -/
def outsideFrom (skips : Json → Context → Bool) (opened : List Call) : List Call → List Call
  | [] => []
  | call :: rest =>
    if call.isBelow skips opened then outsideFrom skips (call.turn opened) rest
    else call :: outsideFrom skips (call.turn opened) rest

section Outside

variable (skips : Json → Context → Bool)

/-- The remaining calls of joined lists of calls. -/
theorem outsideFrom_append (opened first second : List Call) :
    outsideFrom skips opened (first ++ second) =
      outsideFrom skips opened first ++ outsideFrom skips (first.foldl Call.turn opened) second := by
  induction first generalizing opened with
  | nil => rfl
  | cons call rest ih =>
    rw [List.cons_append, outsideFrom, outsideFrom, List.foldl_cons, ih]
    split
    · rfl
    · rfl

/-- The two ways of judging the calls of a list agree. -/
theorem outsideFrom_nil (calls : List Call) :
    outsideFrom skips [] calls = callsOutside skips calls := by
  -- for calls that follow others, which are then open
  have hafter : ∀ rest before : List Call, outsideFrom skips (openCalls before) rest =
      ((rest.zipIdx before.length).filter fun entry =>
        !entry.1.isBelow skips (openCalls ((before ++ rest).take entry.2))).map Prod.fst := by
    intro rest
    induction rest with
    | nil =>
      intro before
      rfl
    | cons call rest ih =>
      intro before
      have hnext := ih (before ++ [call])
      rw [openCalls_concat, List.length_append, List.append_assoc] at hnext
      rw [outsideFrom, hnext, List.zipIdx_cons, List.filter_cons, List.take_left]
      cases hbelow : call.isBelow skips (openCalls before) with
      | true => simp
      | false => simp
  exact hafter calls []

end Outside

/-! ## Calls of a tour -/

/-- Joined tours close what they open, if each of them does. -/
theorem foldl_turn_flatMap {α : Type} (tour : α → List Stop) (list : List α)
    (h : ∀ a ∈ list, ∀ opened, ((tour a).map Stop.call).foldl Call.turn opened = opened) :
    ∀ opened, ((list.flatMap tour).map Stop.call).foldl Call.turn opened = opened := by
  induction list with
  | nil =>
    intro opened
    rfl
  | cons a rest ih =>
    intro opened
    rw [List.flatMap_cons, List.map_append, List.foldl_append, h a List.mem_cons_self]
    exact ih (fun b hb => h b (List.mem_cons_of_mem _ hb)) opened

namespace Walker

/-- A tour closes what it opens. -/
theorem foldl_turn_tour (walker : Walker) (node : Json) :
    ∀ (edge : Option Edge) (above : Ancestry) (path : Path) (opened : List Call),
      ((walker.tour node edge above path).map Stop.call).foldl Call.turn opened = opened := by
  induction node using Json.children_induction with
  | step node ih =>
    intro edge above path opened
    rw [tour_eq, List.map_cons, List.foldl_cons, List.map_append, List.foldl_append,
      foldl_turn_flatMap]
    · rfl
    · intro child hchild
      exact ih _ child hchild _ _ _

theorem foldl_turn_children (walker : Walker) (above : Ancestry) (path : Path)
    (children : List (Edge × Json)) (opened : List Call) :
    ((children.flatMap fun child => walker.tour child.2 (some child.1) above
      (path ++ [child.1])).map Stop.call).foldl Call.turn opened = opened :=
  foldl_turn_flatMap _ children (fun child _ => walker.foldl_turn_tour child.2 _ _ _) opened

/-- What remains of the tour of a node, after the given calls were opened. -/
def tourOutside (walker : Walker) (skips : Json → Context → Bool) (opened : List Call) (node : Json)
    (edge : Option Edge) (above : Ancestry) (path : Path) : List Call :=
  outsideFrom skips opened ((walker.tour node edge above path).map Stop.call)

variable {skips : Json → Context → Bool}

/-- What remains of the tours of children, one after the other. -/
theorem outsideFrom_children (walker : Walker) (children : List (Edge × Json)) (above : Ancestry)
    (path : Path) (opened : List Call) :
    outsideFrom skips opened ((children.flatMap fun child => walker.tour child.2 (some child.1) above
        (path ++ [child.1])).map Stop.call) =
      children.flatMap fun child =>
        walker.tourOutside skips opened child.2 (some child.1) above (path ++ [child.1]) := by
  induction children with
  | nil => rfl
  | cons child rest ih =>
    rw [List.flatMap_cons, List.map_append, outsideFrom_append, foldl_turn_tour, ih,
      List.flatMap_cons, tourOutside]

/-- What remains of the tour of a node: the calls that enter and leave it, unless they are made below a node to
which the predicate applies, and between them what remains of the tours of its children. -/
theorem tourOutside_eq (walker : Walker) (opened : List Call) (node : Json) (edge : Option Edge)
    (above : Ancestry) (path : Path) :
    walker.tourOutside skips opened node edge above path =
      (if appliesToSome skips opened then []
        else [(Stop.atNode path above edge node .enter).call]) ++
      ((walker.children node).flatMap (fun child =>
        walker.tourOutside skips ((Stop.atNode path above edge node .enter).call :: opened) child.2
          (some child.1) (above.push node) (path ++ [child.1])) ++
      if appliesToSome skips opened then [] else [(Stop.atNode path above edge node .leave).call]) := by
  rw [tourOutside, tour_eq, ← List.singleton_append, List.map_append, List.map_append,
    outsideFrom_append, outsideFrom_append, ← outsideFrom_children]
  -- the node is open while its children are visited, and its own entry does not count when it is left
  show outsideFrom skips opened [(Stop.atNode path above edge node .enter).call] ++ (_ ++
    outsideFrom skips (List.foldl Call.turn ((Stop.atNode path above edge node .enter).call :: opened) _)
      [(Stop.atNode path above edge node .leave).call]) = _
  rw [foldl_turn_children]
  rfl

/-- Below a node to which the predicate applies nothing of a tour remains. -/
theorem tourOutside_eq_nil (walker : Walker) (node : Json) :
    ∀ (edge : Option Edge) (above : Ancestry) (path : Path) (opened : List Call),
      appliesToSome skips opened = true → walker.tourOutside skips opened node edge above path = [] := by
  induction node using Json.children_induction with
  | step node ih =>
    intro edge above path opened hopened
    have hmore : appliesToSome skips ((Stop.atNode path above edge node .enter).call :: opened) = true := by
      rw [appliesToSome, List.any_cons, ← appliesToSome, hopened, Bool.or_true]
    rw [tourOutside_eq, hopened, List.flatMap_eq_nil_iff.2]
    · rfl
    · intro child hchild
      exact ih _ child hchild _ _ _ _ hmore

end Walker

/-! ## A visitor that skips -/

/-- A visitor that answers the entry of a node by skipping its children if the predicate applies, and by going
on if it does not. When a node is left it goes on, by either answer. -/
structure Visitor.Skips (visitor : Visitor σ ε) (skips : Json → Context → Bool) : Prop where
  enter : ∀ node context state, (visitor.enter node context state).1 =
    .ok (if skips node context then .skip else .proceed)
  leave : ∀ node context state, (visitor.leave node context state).1 = .ok .proceed ∨
    (visitor.leave node context state).1 = .ok .skip

namespace Walker

variable {walker : Walker} {visitor : Visitor σ ε} {skips : Json → Context → Bool}

/-- A node that is left by a visitor that skips does not end the walk. -/
theorem close_skipping (h : visitor.Skips skips) (node : Json) (context : Context)
    (progress : Progress σ) :
    close visitor node context (none, progress) =
      (none, (progress.call visitor .leave node context).2) := by
  have hanswer : (progress.call visitor .leave node context).1 =
      (visitor.leave node context progress.state).1 := rfl
  rw [close]
  generalize progress.call visitor .leave node context = result at hanswer ⊢
  rcases result with ⟨answer, left⟩
  rcases h.leave node context progress.state with hproceed | hskip
  · cases hanswer.trans hproceed
    rfl
  · cases hanswer.trans hskip
    rfl

/-- A stop that passes is at a node that passes the examination. -/
theorem examine_of_passes {node : Json} {edge : Option Edge} {above : Ancestry} {place : Place}
    (h : walker.Passes (.atNode place.path above edge node .enter)) :
    ∃ found, walker.examine node place.path.length place = .ok found := by
  cases hfound : walker.examine node place.path.length place with
  | ok found => exact ⟨found, rfl⟩
  | error fault => exact absurd (reports_of_examine hfound).1 (h rfl fault)

/-- Children are visited one after the other, if the visit of each makes the calls that remain of its tour. -/
theorem visitAll_skipping (bound : Nat) (above : Ancestry) (steps : List (Option Edge))
    (remaining : Edge × Json → List Call) :
    ∀ (children : List (Edge × Json)) (small : ∀ child ∈ children, sizeOf child.2 < bound),
      (∀ child ∈ children, ∀ progress : Progress σ, ∃ visited,
        walker.visit visitor child.2 (some child.1) above steps progress = (none, visited) ∧
          visited.calls = (remaining child).reverse ++ progress.calls) →
      ∀ progress : Progress σ, ∃ visited,
        walker.visitAll visitor bound children small above steps progress = (none, visited) ∧
          visited.calls = (children.flatMap remaining).reverse ++ progress.calls := by
  intro children
  induction children with
  | nil =>
    intro small _ progress
    exact ⟨progress, visitAll_nil _ _ _ _ _ _ _, rfl⟩
  | cons child rest ih =>
    intro small hvisit progress
    obtain ⟨first, hfirst, hcalls⟩ := hvisit child List.mem_cons_self progress
    obtain ⟨visited, hrest, hcalls'⟩ := ih (fun c hc => small c (List.mem_cons_of_mem _ hc))
      (fun c hc => hvisit c (List.mem_cons_of_mem _ hc)) first
    refine ⟨visited, ?_, ?_⟩
    · rw [visitAll_cons, hfirst]
      exact hrest
    · rw [hcalls', hcalls, List.flatMap_cons, List.reverse_append, List.append_assoc]

/-- A node that passes the examination is entered and left, and between the two calls stand those of the visit of
its children. -/
theorem visit_skipping_of_children (h : visitor.Skips skips) {node : Json} {edge : Option Edge}
    {above : Ancestry} {steps : List (Option Edge)} {found : Finding} {action : Action}
    (hfound : walker.examine node above.depth ⟨edge, steps⟩ = .ok found)
    (haction : action = if skips node ⟨above, edge, found.nodeType⟩ then .skip else .proceed)
    {below : List Call}
    (hbelow : ∀ progress : Progress σ, ∃ visited,
      walker.visitAll visitor (sizeOf node) (visitedChildren node found action)
        (fun _ => sizeOf_visitedChildren_lt) (above.push node) (edge :: steps) progress =
          (none, visited) ∧ visited.calls = below.reverse ++ progress.calls)
    (progress : Progress σ) :
    ∃ visited, walker.visit visitor node edge above steps progress = (none, visited) ∧
      visited.calls = (⟨.enter, node, above, edge, found.nodeType⟩ ::
        (below ++ [⟨.leave, node, above, edge, found.nodeType⟩])).reverse ++ progress.calls := by
  have hstop : action ≠ .stop := by
    rw [haction]
    split
    · decide
    · decide
  have hanswer : ((progress.noteUnknown found ⟨edge, steps⟩).call visitor .enter node
      ⟨above, edge, found.nodeType⟩).1 = .ok action := by
    rw [haction]
    exact h.enter _ _ _
  obtain ⟨visited, hvisited, hcalls⟩ := hbelow ((progress.noteUnknown found ⟨edge, steps⟩).call
    visitor .enter node ⟨above, edge, found.nodeType⟩).2.countNode
  refine ⟨(visited.call visitor .leave node ⟨above, edge, found.nodeType⟩).2, ?_, ?_⟩
  · rw [visit_of_action hfound (Prod.ext hanswer rfl) hstop, hvisited, close_skipping h]
  · rw [Progress.calls_call, hcalls, Progress.calls_countNode, Progress.calls_call,
      Progress.calls_noteUnknown]
    simp

/-- It does not matter that the children of a skipped node are not visited, if nothing remains of them. -/
theorem flatMap_visitedChildren {node : Json} {depth : Nat} {place : Place} {found : Finding}
    {skipped : Bool} (hfound : walker.examine node depth place = .ok found)
    {remaining : Edge × Json → List Call} (h : skipped = true → ∀ child, remaining child = []) :
    (visitedChildren node found (if skipped then .skip else .proceed)).flatMap remaining =
      (walker.children node).flatMap remaining := by
  cases skipped with
  | true => rw [List.flatMap_eq_nil_iff.2 fun child _ => h rfl child, List.flatMap_eq_nil_iff.2
      fun child _ => h rfl child]
  | false =>
    rw [← visitedChildren_of_examine hfound]
    rfl

/-- A visitor that skips makes the calls that remain of a tour on which every node can be entered. -/
theorem visit_skipping (h : visitor.Skips skips) (node : Json) :
    ∀ (edge : Option Edge) (above : Ancestry) (steps : List (Option Edge)) (opened : List Call),
      above.depth = (Place.mk edge steps).path.length →
      (∀ stop ∈ walker.tour node edge above (Place.mk edge steps).path, walker.Passes stop) →
      appliesToSome skips opened = false →
      ∀ progress : Progress σ, ∃ visited,
        walker.visit visitor node edge above steps progress = (none, visited) ∧
          visited.calls = (walker.tourOutside skips opened node edge above
            (Place.mk edge steps).path).reverse ++ progress.calls := by
  induction node using Json.children_induction with
  | step node ih =>
    intro edge above steps opened hdepth hpass hopened
    rw [tour_eq] at hpass
    obtain ⟨found, hfound⟩ := examine_of_passes (hpass _ List.mem_cons_self)
    rw [← hdepth] at hfound
    have hcontext := call_atNode hfound (Place.mk edge steps).path above edge
    -- the node is open while its children are visited
    have hnode : appliesToSome skips (⟨.enter, node, above, edge, found.nodeType⟩ :: opened) =
        skips node ⟨above, edge, found.nodeType⟩ := by
      rw [appliesToSome, List.any_cons, ← appliesToSome, hopened, Bool.or_false]
    rw [tourOutside_eq, hopened, hcontext, hcontext, ← flatMap_visitedChildren hfound
      fun hskipped child => walker.tourOutside_eq_nil child.2 _ _ _ _ (hnode.trans hskipped)]
    apply visit_skipping_of_children h hfound rfl
    apply visitAll_skipping
    intro child hchild
    have hmem : child ∈ walker.children node := by
      rw [children, ← keys_of_examine hfound]
      exact mem_children_of_visited hchild
    rw [← Place.path_child]
    apply ih _ child hmem
    · rw [Place.path_child, List.length_append, ← hdepth]
      rfl
    · intro stop hstop
      rw [Place.path_child] at hstop
      apply hpass
      exact List.mem_cons_of_mem _ (List.mem_append_left _ (List.mem_flatMap.2 ⟨child, hmem, hstop⟩))
    · -- a node with visited children was not skipped
      rw [hnode]
      by_contra hskipped
      rw [if_pos (Bool.of_not_eq_false hskipped)] at hchild
      cases hchild

/-- If a visitor that always goes on completes its walk of a tree, so does a visitor that skips the nodes to which
a predicate applies. Its calls are those of the former without the ones made strictly below such nodes; the
others, with those that leave the skipped nodes, keep their order and their contexts. -/
theorem walk_skipping (walker : Walker) {visitor : Visitor σ ε} {skips : Json → Context → Bool}
    (h : visitor.Skips skips) (note : Phase → Json → Context → τ → τ) (root : Json) (state : σ)
    (first : τ)
    (hcompleted : (walker.walk (.observer (ε := ε) note) root first).result = .ok .completed) :
    (walker.walk visitor root state).result = .ok .completed ∧
      (walker.walk visitor root state).calls =
        callsOutside skips (walker.walk (.observer (ε := ε) note) root first).calls := by
  obtain ⟨-, hpass, hcalls⟩ | ⟨before, stop, after, fault, -, -, -, hresult, -⟩ :=
    walker.walk_observed (ε := ε) note root first
  · rw [hcalls, ← outsideFrom_nil]
    unfold walk
    unfold depthFirst at hpass ⊢
    split
    · exact ⟨rfl, rfl⟩
    · rename_i hroot
      rw [if_neg hroot] at hpass
      obtain ⟨visited, hvisited, hcalls⟩ := visit_skipping h root none .none [] [] rfl hpass rfl
        (.start state)
      rw [Machine.run_start, hvisited]
      refine ⟨rfl, ?_⟩
      show visited.calls.reverse = _
      rw [hcalls, List.reverse_append, List.reverse_reverse]
      rfl
  · -- a walk that completes meets no fault
    rw [hresult] at hcompleted
    cases hcompleted

/-- The visitor that skips the nodes at depth one, and answers in the same way when it leaves a node. -/
def skipChildren : Visitor Nat Empty where
  enter _ context n := (.ok (if context.depth = 1 then .skip else .proceed), n + 1)
  leave _ _ n := (.ok .skip, n + 1)

/-- Of three nested blocks the innermost is not visited if the one around it is skipped. -/
theorem walk_skipping_nestedBlocks :
    (freeBlocks.walk (.observer (ε := Empty) fun _ _ _ n => n + 1) nestedBlocks 0).result =
      .ok .completed ∧
    (freeBlocks.walk skipChildren nestedBlocks 0).result = .ok .completed ∧
    (freeBlocks.walk skipChildren nestedBlocks 0).calls.map
        (fun call => (call.phase, call.context.depth)) =
      [(.enter, 0), (.enter, 1), (.leave, 1), (.leave, 0)] := by
  have hskips : skipChildren.Skips fun _ context => context.depth = 1 :=
    ⟨fun _ _ _ => by simp [skipChildren], fun _ _ _ => Or.inr rfl⟩
  have hcompleted : (freeBlocks.walk (.observer (ε := Empty) fun _ _ _ n => n + 1) nestedBlocks
      0).result = .ok .completed := by cbv
  obtain ⟨hresult, hcalls⟩ := walk_skipping freeBlocks hskips _ nestedBlocks 0 0 hcompleted
  refine ⟨hcompleted, hresult, ?_⟩
  rw [hcalls]
  cbv

end Walker

end SyntaxWalk
