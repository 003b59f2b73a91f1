import SyntaxWalk.Proofs.Walk.Observer

/-!
# Which fault ends a walk

A walk by a visitor that always goes on completes exactly if every reachable node is admitted: it has a
tag, lies within the limit, and its tag has an entry or the walk is lenient. Otherwise the walk fails at
the first reachable node, in the order of a walk, that is not admitted. It reports the fault of the lowest
rank there, and it has made exactly the calls that the tour puts before the entry of this node
(`walk_observer_result`).
-/

set_option autoImplicit false

namespace SyntaxWalk

universe u v

variable {σ : Type u} {ε : Type v}

/-! ## Admitted nodes -/

/-- The tag of a node is the non-empty string in its member `type`. -/
theorem Json.tag?_eq_some_iff {node : Json} {tag : String} :
    node.tag? = some tag ↔ node.get? "type" = some (.string tag) ∧ tag ≠ "" := by
  unfold tag?
  constructor
  · intro h
    split at h
    · rename_i text htext
      split at h
      · cases h
      · rename_i hne
        cases h
        exact ⟨htext, hne⟩
    · cases h
  · rintro ⟨htext, hne⟩
    rw [htext]
    exact if_neg hne

theorem Registry.keys?_eq_none_iff {registry : Registry} {name : String} :
    registry.keys? name = none ↔ registry.contains name = false := by
  rw [keys?, contains, Option.map_eq_none_iff, Option.isSome_eq_false_iff,
    Option.isNone_iff_eq_none]

namespace Walker

/-- A node at the end of a path can be entered: its member `type` is a non-empty string, which has an entry
in the registry unless the walk is lenient, and the path is not longer than the limit. -/
structure Admits (walker : Walker) (path : Path) (node : Json) : Prop where
  tagged : ∃ tag, node.get? "type" = some (.string tag) ∧ tag ≠ "" ∧
    (walker.registry.contains tag = true ∨ walker.unknownTypes = .lenient)
  shallow : ∀ limit, walker.maxDepth = some limit → path.length ≤ limit

/-- The admitted nodes are those without a fault. -/
theorem admits_iff {walker : Walker} {path : Path} {node : Json} :
    walker.Admits path node ↔ ∀ fault, ¬ walker.HasFault path node fault := by
  constructor
  · rintro ⟨⟨tag, htext, hne, hknown⟩, hshallow⟩ fault hfault
    have htag := Json.tag?_eq_some_iff.2 ⟨htext, hne⟩
    cases hfault with
    | malformed hnone =>
      rw [htag] at hnone
      cases hnone
    | tooDeep hlimit hdepth => exact absurd (hshallow _ hlimit) (Nat.not_le_of_lt hdepth)
    | unknownType htag' hkeys hpolicy =>
      rw [htag] at htag'
      cases htag'
      rw [Registry.keys?_eq_none_iff] at hkeys
      rcases hknown with hcontains | hlenient
      · rw [hkeys] at hcontains
        cases hcontains
      · rw [hpolicy] at hlenient
        cases hlenient
  · intro hnone
    constructor
    · cases htag : node.tag? with
      | none => exact absurd (HasFault.malformed htag) (hnone _)
      | some tag =>
        obtain ⟨htext, hne⟩ := Json.tag?_eq_some_iff.1 htag
        refine ⟨tag, htext, hne, ?_⟩
        cases hcontains : walker.registry.contains tag with
        | true => exact Or.inl rfl
        | false =>
          have hkeys := Registry.keys?_eq_none_iff.2 hcontains
          cases hpolicy : walker.unknownTypes with
          | lenient => exact Or.inr rfl
          | strict => exact absurd (HasFault.unknownType htag hkeys hpolicy) (hnone _)
    · intro limit hlimit
      apply Nat.le_of_not_lt
      intro hdepth
      exact hnone _ (.tooDeep hlimit hdepth)

/-! ## The first fault of a tour -/

theorem node_eq_of_mem_depthFirst {walker : Walker} {root node : Json} {stop : Stop}
    (hstop : stop ∈ walker.depthFirst root) (hnode : walker.Reachable root stop.path node) :
    stop.call.node = node :=
  (reachable_of_mem_depthFirst hstop).unique hnode

theorem exists_enter_of_reachable {walker : Walker} {root node : Json} {path : Path}
    (h : walker.Reachable root path node) :
    ∃ stop ∈ walker.depthFirst root, stop.call.phase = .enter ∧ stop.path = path := by
  have hroot := h.isNull_root
  have hmem := (mem_preorder_iff hroot).2 ⟨node, h⟩
  rw [← pathsIn_enter_depthFirst hroot] at hmem
  exact Stop.mem_pathsIn.1 hmem

/-- Of the nodes that are not admitted the tour comes first to the one that precedes the others. -/
theorem precedes_of_first_fault {walker : Walker} {root node : Json} {before after : List Stop}
    {stop : Stop} {path : Path} (hstops : walker.depthFirst root = before ++ stop :: after)
    (henter : stop.call.phase = .enter) (hpass : ∀ s ∈ before, walker.Passes s)
    (hnode : walker.Reachable root path node) (hfault : ¬ walker.Admits path node) :
    path = stop.path ∨ walker.Precedes root stop.path path := by
  have hroot := hnode.isNull_root
  -- a stop before the first fault that enters this path would be at the same node, and pass
  have hnot : path ∉ Stop.pathsIn .enter before := by
    intro hmem
    obtain ⟨s, hs, hphase, rfl⟩ := Stop.mem_pathsIn.1 hmem
    have hs' : s ∈ walker.depthFirst root := by
      rw [hstops]
      exact List.mem_append_left _ hs
    have hpasses := hpass s hs hphase
    rw [node_eq_of_mem_depthFirst hs' hnode] at hpasses
    exact hfault (admits_iff.2 hpasses)
  have hlisted : walker.preorder root =
      Stop.pathsIn .enter before ++ stop.path :: Stop.pathsIn .enter after := by
    rw [← pathsIn_enter_depthFirst hroot, hstops, Stop.pathsIn_append]
    simp [Stop.pathsIn, henter]
  have hmem := (mem_preorder_iff hroot).2 ⟨node, hnode⟩
  rw [hlisted] at hmem
  rcases List.mem_append.1 hmem with hbefore | hrest
  · exact absurd hbefore hnot
  · rcases List.mem_cons.1 hrest with heq | hafter
    · exact Or.inl heq
    · exact (walker.inOrder_preorder root _ _ _ hlisted path hafter).resolve_left hnot

/-- The stops before the first fault are those before the first entry of its path. -/
theorem takeWhile_of_first_fault {walker : Walker} {root : Json} {before after : List Stop}
    {stop : Stop} {fault : Fault} (hstops : walker.depthFirst root = before ++ stop :: after)
    (hpass : ∀ s ∈ before, walker.Passes s) (hfail : walker.Fails stop fault) :
    (walker.depthFirst root).takeWhile
      (fun s => ¬ (s.call.phase = .enter ∧ s.path = stop.path)) = before := by
  have hstop : stop ∈ walker.depthFirst root := by
    rw [hstops]
    exact List.mem_append_right _ List.mem_cons_self
  rw [hstops, List.takeWhile_append_of_pos]
  · simp [hfail.1]
  · intro s hs
    have hs' : s ∈ walker.depthFirst root := by
      rw [hstops]
      exact List.mem_append_left _ hs
    apply decide_eq_true
    rintro ⟨hphase, hpath⟩
    -- such a stop is at the node that fails, and does not pass
    have hnode := reachable_of_mem_depthFirst hstop
    rw [← hpath] at hnode
    have hpasses := hpass s hs hphase fault
    rw [node_eq_of_mem_depthFirst hs' hnode, hpath] at hpasses
    exact hpasses hfail.2.1

/-- A walk by a visitor that always goes on completes exactly if every reachable node is admitted. Otherwise
it fails at the first reachable node, in the order of a walk, that is not admitted, with the fault of the
lowest rank there, and has made exactly the calls that the tour puts before the entry of this node. -/
theorem walk_observer_result (walker : Walker) (note : Phase → Json → Context → σ → σ)
    (root : Json) (state : σ) :
    ((walker.walk (.observer (ε := ε) note) root state).result = .ok .completed ↔
      ∀ path node, walker.Reachable root path node → walker.Admits path node) ∧
    ((walker.walk (.observer (ε := ε) note) root state).result ≠ .ok .completed →
      ∃ path node fault, walker.Reachable root path node ∧ walker.Reports path node fault ∧
        (∀ path' node', walker.Reachable root path' node' → ¬ walker.Admits path' node' →
          path' = path ∨ walker.Precedes root path path') ∧
        (walker.walk (.observer (ε := ε) note) root state).result = .error (.fault fault) ∧
        (walker.walk (.observer (ε := ε) note) root state).calls =
          ((walker.depthFirst root).takeWhile fun stop =>
            ¬ (stop.call.phase = .enter ∧ stop.path = path)).map Stop.call) := by
  rcases walker.walk_observed (ε := ε) note root state with ⟨hresult, hpass, -⟩ |
    ⟨before, stop, after, fault, hstops, hpass, hfail, hresult, hcalls⟩
  · -- all stops pass
    refine ⟨⟨?_, fun _ => hresult⟩, fun hne => absurd hresult hne⟩
    intro _ path node hnode
    obtain ⟨stop, hstop, hphase, rfl⟩ := exists_enter_of_reachable hnode
    rw [← node_eq_of_mem_depthFirst hstop hnode]
    exact admits_iff.2 (hpass stop hstop hphase)
  · -- a first stop fails
    have hstop : stop ∈ walker.depthFirst root := by
      rw [hstops]
      exact List.mem_append_right _ List.mem_cons_self
    have hnode := reachable_of_mem_depthFirst hstop
    refine ⟨⟨?_, ?_⟩, ?_⟩
    · intro hcompleted
      rw [hresult] at hcompleted
      cases hcompleted
    · intro hall
      exact absurd hfail.2.1 (admits_iff.1 (hall _ _ hnode) fault)
    · intro _
      refine ⟨stop.path, stop.call.node, fault, hnode, hfail.2, ?_, hresult, ?_⟩
      · intro path' node' hnode' hfault'
        exact precedes_of_first_fault hstops hfail.1 hpass hnode' hfault'
      · rw [takeWhile_of_first_fault hstops hpass hfail]
        exact hcalls

end Walker

end SyntaxWalk
