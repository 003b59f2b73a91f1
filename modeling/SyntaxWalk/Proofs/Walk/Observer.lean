import SyntaxWalk.Proofs.Walk.Recursion
import SyntaxWalk.Proofs.Walk.Tour

/-!
# Walks by observers

A visitor that always goes on (`Visitor.observer`) makes the calls of the tour one after the other, up to
the first stop where a node cannot be entered, and fails there with the fault of this node
(`walk_observed`). Without such a stop it makes all calls of the tour. A node may be at fault in several
ways (`Walker.HasFault`); the fault of the lowest rank is the one reported.
-/

set_option autoImplicit false

namespace SyntaxWalk

universe u v

variable {σ : Type u} {ε : Type v}

/-- The visitor that always goes on and takes note of what it sees. -/
def Visitor.observer (note : Phase → Json → Context → σ → σ) : Visitor σ ε where
  enter node context state := (.ok .proceed, note .enter node context state)
  leave node context state := (.ok .proceed, note .leave node context state)

/-- Every visitor that always goes on is an observer. -/
theorem Visitor.eq_observer {visitor : Visitor σ ε}
    (h : ∀ phase node context state,
      (visitor.hook phase node context state).1 = .ok .proceed) :
    visitor = .observer fun phase node context state =>
      (visitor.hook phase node context state).2 := by
  rcases visitor with ⟨enter, leave⟩
  rw [observer, Visitor.mk.injEq]
  constructor
  · funext node context state
    exact Prod.ext (h .enter node context state) rfl
  · funext node context state
    exact Prod.ext (h .leave node context state) rfl

theorem Progress.call_observer (progress : Progress σ) (note : Phase → Json → Context → σ → σ)
    (phase : Phase) (node : Json) (context : Context) :
    progress.call (.observer (ε := ε) note) phase node context =
      (.ok .proceed, (progress.call (.observer (ε := ε) note) phase node context).2) := by
  cases phase with
  | enter => rfl
  | leave => rfl

/-! ## Faults -/

/-- The order in which the faults of one node count: the lowest is reported. -/
def Fault.rank : Fault → Nat
  | malformed _ => 0
  | tooDeep _ _ => 1
  | unknownType _ _ => 2

namespace Walker

/-- The faults of a node at the end of a path. -/
inductive HasFault (walker : Walker) (path : Path) (node : Json) : Fault → Prop where
  /-- The node has no tag. -/
  | malformed (htag : node.tag? = none) : HasFault walker path node (.malformed path)
  /-- The path is longer than the limit. -/
  | tooDeep {limit : Nat} (hlimit : walker.maxDepth = some limit) (hdepth : limit < path.length) :
      HasFault walker path node (.tooDeep limit path)
  /-- The tag has no entry and the walk is strict. -/
  | unknownType {tag : String} (htag : node.tag? = some tag)
      (hkeys : walker.registry.keys? tag = none) (hpolicy : walker.unknownTypes = .strict) :
      HasFault walker path node (.unknownType tag path)

/-- The fault that is reported: no other fault of the node has a lower rank. -/
def Reports (walker : Walker) (path : Path) (node : Json) (fault : Fault) : Prop :=
  walker.HasFault path node fault ∧
    ∀ other, walker.HasFault path node other → fault.rank ≤ other.rank

/-- A node has one fault of each rank at most. -/
theorem HasFault.eq_of_rank {walker : Walker} {path : Path} {node : Json} {fault other : Fault}
    (h : walker.HasFault path node fault) (hother : walker.HasFault path node other)
    (hrank : fault.rank = other.rank) : fault = other := by
  cases h with
  | malformed htag =>
    cases hother with
    | malformed htag' => rfl
    | tooDeep hlimit' hdepth' => cases hrank
    | unknownType htag' hkeys' hpolicy' => cases hrank
  | tooDeep hlimit hdepth =>
    cases hother with
    | malformed htag' => cases hrank
    | tooDeep hlimit' hdepth' =>
      rw [hlimit] at hlimit'
      cases hlimit'
      rfl
    | unknownType htag' hkeys' hpolicy' => cases hrank
  | unknownType htag hkeys hpolicy =>
    cases hother with
    | malformed htag' => cases hrank
    | tooDeep hlimit' hdepth' => cases hrank
    | unknownType htag' hkeys' hpolicy' =>
      rw [htag] at htag'
      cases htag'
      rfl

theorem Reports.unique {walker : Walker} {path : Path} {node : Json} {fault other : Fault}
    (h : walker.Reports path node fault) (hother : walker.Reports path node other) : fault = other :=
  h.1.eq_of_rank hother.1 (Nat.le_antisymm (h.2 other hother.1) (hother.2 fault h.1))

theorem exceeded?_eq_some_iff {walker : Walker} {depth limit : Nat} :
    walker.exceeded? depth = some limit ↔ walker.maxDepth = some limit ∧ limit < depth := by
  unfold exceeded?
  cases hmax : walker.maxDepth with
  | none => simp
  | some bound =>
    dsimp only
    by_cases hlt : bound < depth
    · rw [if_pos hlt]
      constructor
      · rintro ⟨⟩
        exact ⟨rfl, hlt⟩
      · rintro ⟨⟨⟩, -⟩
        rfl
    · rw [if_neg hlt]
      constructor
      · rintro ⟨⟩
      · rintro ⟨⟨⟩, hdepth⟩
        exact absurd hdepth hlt

/-- A node that does not pass the examination has the fault that is reported. -/
theorem reports_of_examine {walker : Walker} {node : Json} {place : Place} {fault : Fault}
    (h : walker.examine node place.path.length place = .error fault) :
    walker.Reports place.path node fault := by
  unfold examine at h
  split at h
  · rename_i htag
    cases h
    exact ⟨.malformed htag, fun other _ => Nat.zero_le _⟩
  · rename_i tag htag
    split at h
    · -- a node with a tag is not malformed, and the limit comes before the registry
      rename_i limit hlimit
      cases h
      obtain ⟨hmax, hdepth⟩ := exceeded?_eq_some_iff.1 hlimit
      refine ⟨.tooDeep hmax hdepth, fun other hother => ?_⟩
      cases hother with
      | malformed hnone =>
        rw [htag] at hnone
        cases hnone
      | tooDeep hmax' hdepth' => exact Nat.le_refl 1
      | unknownType htag' hkeys hpolicy => exact Nat.le_succ 1
    · rename_i hlimit
      split at h
      · cases h
      · rename_i hkeys
        split at h
        · rename_i hpolicy
          cases h
          -- the fault of the highest rank is reported if there is no other
          refine ⟨.unknownType htag hkeys hpolicy, fun other hother => ?_⟩
          cases hother with
          | malformed hnone =>
            rw [htag] at hnone
            cases hnone
          | tooDeep hmax hdepth =>
            rw [exceeded?_eq_some_iff.2 ⟨hmax, hdepth⟩] at hlimit
            cases hlimit
          | unknownType htag' hkeys' hpolicy' => exact Nat.le_refl 2
        · cases h

/-- A node that passes the examination has no fault. -/
theorem not_hasFault_of_examine {walker : Walker} {node : Json} {place : Place}
    {found : Finding} (h : walker.examine node place.path.length place = .ok found)
    (fault : Fault) : ¬ walker.HasFault place.path node fault := by
  intro hfault
  unfold examine at h
  cases hfault with
  | malformed htag =>
    rw [htag] at h
    cases h
  | tooDeep hmax hdepth =>
    rw [exceeded?_eq_some_iff.2 ⟨hmax, hdepth⟩] at h
    split at h
    · cases h
    · cases h
  | unknownType htag hkeys hpolicy =>
    rw [htag] at h
    dsimp only at h
    split at h
    · cases h
    · rw [hkeys, hpolicy] at h
      cases h

theorem tag_of_examine {walker : Walker} {node : Json} {depth : Nat} {place : Place}
    {found : Finding} (h : walker.examine node depth place = .ok found) :
    node.tag? = some found.nodeType :=
  (examine_eq_ok_iff.1 h).1

theorem call_atNode {walker : Walker} {node : Json} {depth : Nat} {place : Place}
    {found : Finding} (h : walker.examine node depth place = .ok found) (path : Path)
    (above : Ancestry) (edge : Option Edge) (phase : Phase) :
    (Stop.atNode path above edge node phase).call =
      ⟨phase, node, above, edge, found.nodeType⟩ := by
  rw [Stop.atNode, tag_of_examine h]
  rfl

theorem visitedChildren_of_examine {walker : Walker} {node : Json} {depth : Nat} {place : Place}
    {found : Finding} (h : walker.examine node depth place = .ok found) :
    visitedChildren node found .proceed = walker.children node := by
  rw [visitedChildren, keys_of_examine h]
  rfl

end Walker

/-! ## What an observer does on a tour -/

/-- A stop at which no node fails to be entered. -/
def Walker.Passes (walker : Walker) (stop : Stop) : Prop :=
  stop.call.phase = .enter → ∀ fault, ¬ walker.HasFault stop.path stop.call.node fault

/-- A stop at which a node fails to be entered. -/
def Walker.Fails (walker : Walker) (stop : Stop) (fault : Fault) : Prop :=
  stop.call.phase = .enter ∧ walker.Reports stop.path stop.call.node fault

/-- From some calls on, the calls of a list of stops are made up to the first stop that fails. -/
inductive Observed (walker : Walker) (stops : List Stop) (calls : List Call) :
    Option (Halt ε) × Progress σ → Prop where
  /-- All stops pass. -/
  | all {progress : Progress σ} (hpass : ∀ stop ∈ stops, walker.Passes stop)
      (hcalls : progress.calls = (stops.map Stop.call).reverse ++ calls) :
      Observed walker stops calls (none, progress)
  /-- The stops before one that fails pass. -/
  | upTo {progress : Progress σ} {before after : List Stop} {stop : Stop} {fault : Fault}
      (hstops : stops = before ++ stop :: after) (hpass : ∀ s ∈ before, walker.Passes s)
      (hfail : walker.Fails stop fault)
      (hcalls : progress.calls = (before.map Stop.call).reverse ++ calls) :
      Observed walker stops calls (some (.failed (.fault fault)), progress)

namespace Observed

variable {walker : Walker} {calls : List Call}

theorem nil {progress : Progress σ} (hcalls : progress.calls = calls) :
    Observed (ε := ε) walker [] calls (none, progress) :=
  .all nofun hcalls

theorem single {stop : Stop} {progress : Progress σ} (hpass : walker.Passes stop)
    (hcalls : progress.calls = stop.call :: calls) :
    Observed (ε := ε) walker [stop] calls (none, progress) :=
  .all (fun _ hs => List.mem_singleton.1 hs ▸ hpass) hcalls

/-- After stops that all pass, the next stops are looked at. -/
theorem append {first second : List Stop} {progress : Progress σ}
    {result : Option (Halt ε) × Progress σ}
    (hfirst : Observed (ε := ε) walker first calls (none, progress))
    (hsecond : Observed walker second progress.calls result) :
    Observed walker (first ++ second) calls result := by
  cases hfirst with
  | all hpass hcalls =>
    have hboth : ∀ {others : List Stop}, (∀ s ∈ others, walker.Passes s) →
        ∀ s ∈ first ++ others, walker.Passes s := by
      intro others hothers s hs
      rcases List.mem_append.1 hs with hs | hs
      · exact hpass s hs
      · exact hothers s hs
    cases hsecond with
    | all hpass' hcalls' =>
      refine .all (hboth hpass') ?_
      rw [hcalls', hcalls, List.map_append, List.reverse_append, List.append_assoc]
    | upTo hstops hpass' hfail hcalls' =>
      refine .upTo (by rw [hstops, List.append_assoc]) (hboth hpass') hfail ?_
      rw [hcalls', hcalls, List.map_append, List.reverse_append, List.append_assoc]

theorem append_of_halt {first second : List Stop} {halt : Halt ε} {progress : Progress σ}
    (hfirst : Observed walker first calls (some halt, progress)) :
    Observed walker (first ++ second) calls (some halt, progress) := by
  cases hfirst with
  | upTo hstops hpass hfail hcalls =>
    exact .upTo (by rw [hstops, List.append_assoc, List.cons_append]) hpass hfail hcalls

end Observed

theorem Place.path_child (edge : Option Edge) (steps : List (Option Edge)) (child : Edge) :
    (Place.mk (some child) (edge :: steps)).path = (Place.mk edge steps).path ++ [child] := by
  rw [Place.path, List.reverse_cons, List.filterMap_append]
  rfl

namespace Walker

/-- An observer sees children one after the other, if it sees each of them as its tour says. -/
theorem visitAll_observed (walker : Walker) (note : Phase → Json → Context → σ → σ) (bound : Nat)
    (above : Ancestry) (steps : List (Option Edge)) (tour : Edge × Json → List Stop) :
    ∀ (children : List (Edge × Json)) (small : ∀ child ∈ children, sizeOf child.2 < bound),
      (∀ child ∈ children, ∀ progress : Progress σ, Observed walker (tour child) progress.calls
        (walker.visit (.observer (ε := ε) note) child.2 (some child.1) above steps progress)) →
      ∀ progress : Progress σ, Observed walker (children.flatMap tour) progress.calls
        (walker.visitAll (.observer (ε := ε) note) bound children small above steps progress) := by
  intro children
  induction children with
  | nil =>
    intro small _ progress
    rw [visitAll_nil]
    exact .nil rfl
  | cons child rest ih =>
    intro small hvisit progress
    have hfirst := hvisit child List.mem_cons_self progress
    have hrest := ih (fun c hc => small c (List.mem_cons_of_mem _ hc))
      fun c hc => hvisit c (List.mem_cons_of_mem _ hc)
    rw [visitAll_cons, List.flatMap_cons]
    rcases hresult : walker.visit (.observer (ε := ε) note) child.2 (some child.1) above steps
      progress with ⟨_ | halt, visited⟩
    · rw [hresult] at hfirst
      exact hfirst.append (hrest visited)
    · rw [hresult] at hfirst
      exact hfirst.append_of_halt

/-- At the end of a visit the node is left, unless a stop failed. -/
theorem close_observed {walker : Walker} (note : Phase → Json → Context → σ → σ)
    {stops : List Stop} {calls : List Call} {result : Option (Halt ε) × Progress σ} {stop : Stop}
    (h : Observed walker stops calls result) (hphase : stop.call.phase = .leave) :
    Observed walker (stops ++ [stop]) calls
      (close (.observer note) stop.call.node stop.call.context result) := by
  rcases result with ⟨_ | halt, visited⟩
  · -- only entries can fail
    have hpass : walker.Passes stop := by
      intro henter
      rw [hphase] at henter
      cases henter
    rw [close, Progress.call_observer]
    refine h.append (.single hpass ?_)
    rw [Progress.calls_call, ← hphase]
  · exact h.append_of_halt

/-- An observer sees a node and everything below it as its tour says. -/
theorem visit_observed (walker : Walker) (note : Phase → Json → Context → σ → σ) (node : Json) :
    ∀ (edge : Option Edge) (above : Ancestry) (steps : List (Option Edge))
      (progress : Progress σ), above.depth = (Place.mk edge steps).path.length →
      Observed walker (walker.tour node edge above (Place.mk edge steps).path) progress.calls
        (walker.visit (.observer (ε := ε) note) node edge above steps progress) := by
  -- the examination counts ancestors and the fault names a path: the two stay equally long
  induction node using Json.children_induction with
  | step node ih =>
    intro edge above steps progress hdepth
    rw [tour_eq]
    cases hfound : walker.examine node above.depth ⟨edge, steps⟩ with
    | error fault =>
      rw [visit_of_fault hfound]
      rw [hdepth] at hfound
      exact .upTo (List.nil_append _).symm nofun
        ⟨rfl, reports_of_examine hfound⟩ rfl
    | ok found =>
      have hcontext := call_atNode hfound (Place.mk edge steps).path above edge
      -- the children are visited below the node, one edge further down
      have hbelow := visitAll_observed (ε := ε) walker note (sizeOf node) (above.push node)
        (edge :: steps)
        (fun child => walker.tour child.2 (some child.1) (above.push node)
          ((Place.mk edge steps).path ++ [child.1]))
        (visitedChildren node found .proceed) (fun _ => sizeOf_visitedChildren_lt) (by
          intro child hchild visited
          have hdepth' : (above.push node).depth =
              (Place.mk (some child.1) (edge :: steps)).path.length := by
            rw [Place.path_child, List.length_append, ← hdepth]
            rfl
          have hvisit := ih _ child (mem_children_of_visited hchild) (some child.1)
            (above.push node) (edge :: steps) visited hdepth'
          rwa [Place.path_child] at hvisit)
      have hpass : walker.Passes (.atNode (Place.mk edge steps).path above edge node .enter) := by
        intro _ fault
        rw [hdepth] at hfound
        exact not_hasFault_of_examine hfound fault
      rw [← visitedChildren_of_examine hfound,
        visit_of_action hfound (Progress.call_observer _ note _ _ _) (by decide)]
      -- as a variable, so that rewriting its calls leaves the visit of the children alone
      obtain ⟨entered, hentered⟩ : ∃ entered, entered = ((progress.noteUnknown found
        ⟨edge, steps⟩).call (.observer (ε := ε) note) .enter node
        ⟨above, edge, found.nodeType⟩).2.countNode := ⟨_, rfl⟩
      have hcalls : entered.calls =
          (Stop.atNode (Place.mk edge steps).path above edge node .enter).call :: progress.calls := by
        rw [hentered, hcontext, Progress.calls_countNode, Progress.calls_call,
          Progress.calls_noteUnknown]
      have hleft := close_observed note (hbelow entered) (congrArg Call.phase (hcontext .leave))
      rw [hcontext] at hleft
      rw [← hentered]
      exact (Observed.single hpass hcalls).append hleft

/-- An observer sees a tree as its tour says: it makes the calls of the tour and completes, or it makes
those before the first stop that fails and fails with the fault reported there. -/
theorem walk_observed (walker : Walker) (note : Phase → Json → Context → σ → σ) (root : Json)
    (state : σ) :
    ((walker.walk (.observer (ε := ε) note) root state).result = .ok .completed ∧
      (∀ stop ∈ walker.depthFirst root, walker.Passes stop) ∧
      (walker.walk (.observer (ε := ε) note) root state).calls =
        (walker.depthFirst root).map Stop.call) ∨
    ∃ before stop after fault, walker.depthFirst root = before ++ stop :: after ∧
      (∀ s ∈ before, walker.Passes s) ∧ walker.Fails stop fault ∧
      (walker.walk (.observer (ε := ε) note) root state).result = .error (.fault fault) ∧
      (walker.walk (.observer (ε := ε) note) root state).calls = before.map Stop.call := by
  rw [walk, depthFirst]
  split
  · refine Or.inl ⟨rfl, ?_, rfl⟩
    intro stop hstop
    cases hstop
  · have hvisit := visit_observed (ε := ε) walker note root none .none [] (.start state) rfl
    rw [Machine.run_start]
    rcases hresult : walker.visit (.observer (ε := ε) note) root none .none [] (.start state)
      with ⟨result, progress⟩
    rw [hresult] at hvisit
    cases hvisit with
    | all hpass hcalls =>
      refine Or.inl ⟨rfl, hpass, ?_⟩
      rw [Progress.calls_completed, hcalls, List.reverse_append, List.reverse_reverse]
      rfl
    | @upTo _ before after stop fault hstops hpass hfail hcalls =>
      refine Or.inr ⟨before, stop, after, fault, hstops, hpass, hfail, rfl, ?_⟩
      show progress.calls.reverse = _
      rw [hcalls, List.reverse_append, List.reverse_reverse]
      rfl

theorem Fails.not_passes {walker : Walker} {stop : Stop} {fault : Fault} (h : walker.Fails stop fault) :
    ¬ walker.Passes stop :=
  fun hpass => hpass h.1 fault h.2.1

/-- The first stop that fails is one and the same, however the stops are split there. -/
theorem Fails.first_unique {walker : Walker} {stop other : Stop} {fault fault' : Fault}
    (hfail : walker.Fails stop fault) (hfail' : walker.Fails other fault') :
    ∀ {before before' after after' : List Stop}, before ++ stop :: after = before' ++ other :: after' →
      (∀ s ∈ before, walker.Passes s) → (∀ s ∈ before', walker.Passes s) →
      before = before' ∧ stop = other := by
  intro before
  induction before with
  | nil =>
    intro before' after after' hstops _ hpass'
    cases before' with
    | nil => exact ⟨rfl, (List.cons.inj hstops).1⟩
    | cons s before' =>
      cases hstops
      exact absurd (hpass' stop List.mem_cons_self) hfail.not_passes
  | cons s before ih =>
    intro before' after after' hstops hpass hpass'
    cases before' with
    | nil =>
      cases hstops
      exact absurd (hpass other List.mem_cons_self) hfail'.not_passes
    | cons s' before' =>
      obtain ⟨rfl, hrest⟩ := List.cons.inj hstops
      obtain ⟨rfl, hstop⟩ := ih hrest (List.forall_mem_cons.1 hpass).2 (List.forall_mem_cons.1 hpass').2
      exact ⟨rfl, hstop⟩

/-- If all stops of the tour pass, an observer makes all its calls. -/
theorem walk_of_passes {walker : Walker} {root : Json}
    (hpass : ∀ stop ∈ walker.depthFirst root, walker.Passes stop)
    (note : Phase → Json → Context → σ → σ) (state : σ) :
    (walker.walk (.observer (ε := ε) note) root state).result = .ok .completed ∧
      (walker.walk (.observer (ε := ε) note) root state).calls =
        (walker.depthFirst root).map Stop.call := by
  rcases walker.walk_observed (ε := ε) note root state with ⟨hresult, -, hcalls⟩ |
    ⟨before, stop, after, fault, hstops, -, hfail, -, -⟩
  · exact ⟨hresult, hcalls⟩
  · have hstop : stop ∈ walker.depthFirst root := by
      rw [hstops]
      exact List.mem_append_right _ List.mem_cons_self
    exact absurd (hpass stop hstop) hfail.not_passes

/-- If a stop of the tour fails and those before it pass, an observer makes the calls before it and fails with
the fault that is reported there. -/
theorem walk_of_fails {walker : Walker} {root : Json} {before after : List Stop} {stop : Stop}
    {fault : Fault} (hstops : walker.depthFirst root = before ++ stop :: after)
    (hpass : ∀ s ∈ before, walker.Passes s) (hfail : walker.Fails stop fault)
    (note : Phase → Json → Context → σ → σ) (state : σ) :
    (walker.walk (.observer (ε := ε) note) root state).result = .error (.fault fault) ∧
      (walker.walk (.observer (ε := ε) note) root state).calls = before.map Stop.call := by
  rcases walker.walk_observed (ε := ε) note root state with ⟨-, hall, -⟩ |
    ⟨before', stop', after', fault', hstops', hpass', hfail', hresult, hcalls⟩
  · have hstop : stop ∈ walker.depthFirst root := by
      rw [hstops]
      exact List.mem_append_right _ List.mem_cons_self
    exact absurd (hall stop hstop) hfail.not_passes
  · obtain ⟨rfl, rfl⟩ := hfail.first_unique hfail' (hstops.symm.trans hstops') hpass hpass'
    rw [hfail.2.unique hfail'.2]
    exact ⟨hresult, hcalls⟩

end Walker

end SyntaxWalk
