import Mathlib
import SyntaxWalk.Proofs.Walk.Completeness
import SyntaxWalk.Proofs.Walk.FaultPlace
import SyntaxWalk.Proofs.Walk.Skipping

/-!
# Subtrees are walked as if alone

Between the entry of a node and its end, a visitor that always goes on makes the calls that it would make if
the node were the root of a tree of its own and the limit were lowered by the depth of the node. What changes is
what the contexts say of the outside: the nodes above the node come before the parents within the subtree, and
the edge that leads to the node stands in its own two calls (`Call.under`). A fault within the subtree is the
fault of the lone walk, found behind the path to the node (`Fault.under`).

The end of a node is read off the calls (`untilClosed`): it is the call after which nothing is open any more of
what was opened from the entry on. The tour of a node is closed by its last stop and by no other
(`untilClosed_tour`, `untilClosed_part`). A tour in a tree is the lone tour, moved below the node
(`tour_below`), and so are its faults (`passes_under_iff`, `Fails.of_under`). The statement about walks is
`walk_subtree`.
-/

set_option autoImplicit false

namespace SyntaxWalk

universe u v

variable {σ τ : Type u} {ε : Type v}

/-! ## From an entry to its end -/

/-- The calls up to the one after which nothing is open, or all of them if something stays open. -/
def untilClosed (opened : List Call) : List Call → List Call
  | [] => []
  | call :: rest =>
    if (call.turn opened).isEmpty then [call] else call :: untilClosed (call.turn opened) rest

/-- Calls that close nothing of what was open before them. -/
def KeepsOpen (calls : List Call) : Prop :=
  ∀ opened part, part <+: calls → opened <:+ part.foldl Call.turn opened

/-- As long as something stays open, no call is the last. -/
theorem untilClosed_append {opened first : List Call} (rest : List Call)
    (h : ∀ part, part <+: first → part.foldl Call.turn opened ≠ []) :
    untilClosed opened (first ++ rest) =
      first ++ untilClosed (first.foldl Call.turn opened) rest := by
  induction first generalizing opened with
  | nil => rfl
  | cons call first ih =>
    have hopen : call.turn opened ≠ [] := h [call] ⟨first, rfl⟩
    have hrest : ∀ part, part <+: first → part.foldl Call.turn (call.turn opened) ≠ [] := by
      intro part hpart
      exact h (call :: part) (List.cons_prefix_cons.2 ⟨rfl, hpart⟩)
    rw [List.cons_append, untilClosed, if_neg (by simpa using hopen), ih hrest]
    rfl

section Wrapped

variable {inner : List Call} (h : KeepsOpen inner) {first last : Call} (hfirst : first.phase = .enter)

include h hfirst

theorem KeepsOpen.ne_nil {part : List Call} (hpart : part <+: inner) :
    part.foldl Call.turn (first.turn []) ≠ [] := by
  intro hnil
  have hsuffix := h (first.turn []) part hpart
  rw [hnil, List.suffix_nil, Call.turn, hfirst] at hsuffix
  cases hsuffix

/-- An entry that was not closed keeps all calls behind it. -/
theorem KeepsOpen.untilClosed_part {part : List Call} (hpart : part <+: inner) :
    untilClosed [] (first :: part) = first :: part ∧ openCalls (first :: part) ≠ [] := by
  have hopen : ∀ start, start <+: part → start.foldl Call.turn (first.turn []) ≠ [] :=
    fun start hstart => h.ne_nil hfirst (hstart.trans hpart)
  have hwhole := untilClosed_append [] hopen
  rw [List.append_nil, untilClosed, List.append_nil] at hwhole
  constructor
  · rw [untilClosed, if_neg (by simpa using hopen [] List.nil_prefix), hwhole]
  · exact hopen part (List.prefix_refl part)

/-- An entry is closed by the call that leaves the node, and by none before. -/
theorem KeepsOpen.untilClosed_wrap (hclosed : ∀ opened, inner.foldl Call.turn opened = opened)
    (hlast : last.phase = .leave) (rest : List Call) :
    untilClosed [] (first :: (inner ++ last :: rest)) = first :: (inner ++ [last]) := by
  have hopen := fun part => @KeepsOpen.ne_nil inner h first hfirst part
  have hend : last.turn (first.turn []) = [] := by
    rw [Call.turn, hlast, Call.turn, hfirst]
    rfl
  rw [untilClosed, if_neg (by simpa using hopen [] List.nil_prefix), untilClosed_append _ hopen, hclosed,
    untilClosed, if_pos (by rw [hend]; rfl)]

/-- A node that is entered and left closes nothing else. -/
theorem KeepsOpen.wrap (hclosed : ∀ opened, inner.foldl Call.turn opened = opened)
    (hlast : last.phase = .leave) : KeepsOpen (first :: (inner ++ [last])) := by
  intro opened part hpart
  cases part with
  | nil => exact List.suffix_refl opened
  | cons call part =>
    obtain ⟨rfl, htail⟩ := List.cons_prefix_cons.1 hpart
    have hturn : call.turn opened = call :: opened := by rw [Call.turn, hfirst]
    rw [List.foldl_cons, hturn]
    rcases List.prefix_concat_iff.1 htail with rfl | hinner
    · -- the last call closes the first, and nothing else
      rw [List.foldl_append, hclosed, List.foldl_cons, List.foldl_nil, Call.turn, hlast]
      exact List.suffix_refl opened
    · exact (List.suffix_cons call opened).trans (h _ part hinner)

end Wrapped

theorem KeepsOpen.append {first second : List Call} (hfirst : KeepsOpen first)
    (hclosed : ∀ opened, first.foldl Call.turn opened = opened) (hsecond : KeepsOpen second) :
    KeepsOpen (first ++ second) := by
  rintro opened part ⟨rest, hrest⟩
  rcases List.append_eq_append_iff.1 hrest with ⟨more, hpart, -⟩ | ⟨more, rfl, hpart⟩
  · exact hfirst opened part ⟨more, hpart.symm⟩
  · rw [List.foldl_append, hclosed]
    exact hsecond opened more ⟨rest, hpart.symm⟩

theorem keepsOpen_nil : KeepsOpen [] := by
  intro opened part hpart
  rw [List.prefix_nil.1 hpart]
  exact List.suffix_refl opened

namespace Walker

/-- The tours of children, one after the other, close nothing else if each of them does not. -/
theorem keepsOpen_children (walker : Walker) (above : Ancestry) (path : Path)
    (children : List (Edge × Json))
    (h : ∀ child ∈ children, KeepsOpen
      ((walker.tour child.2 (some child.1) above (path ++ [child.1])).map Stop.call)) :
    KeepsOpen ((children.flatMap fun child => walker.tour child.2 (some child.1) above
      (path ++ [child.1])).map Stop.call) := by
  induction children with
  | nil => exact keepsOpen_nil
  | cons child rest ih =>
    obtain ⟨hchild, hrest⟩ := List.forall_mem_cons.1 h
    rw [List.flatMap_cons, List.map_append]
    apply hchild.append
    · exact walker.foldl_turn_tour child.2 _ _ _
    · exact ih hrest

/-- A tour closes nothing of what was open before it. -/
theorem keepsOpen_tour (walker : Walker) (node : Json) :
    ∀ (edge : Option Edge) (above : Ancestry) (path : Path),
      KeepsOpen ((walker.tour node edge above path).map Stop.call) := by
  induction node using Json.children_induction with
  | step node ih =>
    intro edge above path
    rw [tour_eq, List.map_cons, List.map_append]
    apply KeepsOpen.wrap
    · apply keepsOpen_children
      intro child hchild
      exact ih _ child hchild _ _ _
    · rfl
    · exact walker.foldl_turn_children _ _ _
    · rfl

section Closing

variable (walker : Walker) (node : Json) (edge : Option Edge) (above : Ancestry) (path : Path)

/-- From its entry on, a node is closed at the end of its tour. -/
theorem untilClosed_tour (rest : List Call) :
    untilClosed [] ((walker.tour node edge above path).map Stop.call ++ rest) =
      (walker.tour node edge above path).map Stop.call := by
  have hinner := walker.keepsOpen_children (above.push node) path (walker.children node)
    fun child _ => walker.keepsOpen_tour child.2 _ _ _
  rw [tour_eq, List.map_cons, List.map_append, List.cons_append, List.append_assoc]
  apply hinner.untilClosed_wrap
  · rfl
  · exact walker.foldl_turn_children _ _ _
  · rfl

/-- Before the last stop of its tour, a node that was entered is not closed. -/
theorem untilClosed_part {part after : List Stop} {stop : Stop}
    (hstops : walker.tour node edge above path = part ++ stop :: after) (hne : part ≠ []) :
    untilClosed [] (part.map Stop.call) = part.map Stop.call ∧ openCalls (part.map Stop.call) ≠ [] := by
  obtain ⟨first, part, rfl⟩ := List.exists_cons_of_ne_nil hne
  have hinner := walker.keepsOpen_children (above.push node) path (walker.children node)
    fun child _ => walker.keepsOpen_tour child.2 _ _ _
  rw [tour_eq, List.cons_append, List.cons.injEq] at hstops
  obtain ⟨rfl, hrest⟩ := hstops
  rw [List.map_cons]
  apply hinner.untilClosed_part
  · rfl
  · -- what is missing of the tour ends with the last stop
    have hpart : part <+: (walker.children node).flatMap fun child =>
        walker.tour child.2 (some child.1) (above.push node) (path ++ [child.1]) := by
      have hconcat : part <+: (walker.children node).flatMap (fun child =>
          walker.tour child.2 (some child.1) (above.push node) (path ++ [child.1])) ++
            [.atNode path above edge node .leave] := ⟨stop :: after, hrest.symm⟩
      rcases List.prefix_concat_iff.1 hconcat with heq | hpart
      · rw [heq] at hrest
        simp at hrest
      · exact hpart
    exact hpart.map Stop.call

theorem getLast?_tour :
    ((walker.tour node edge above path).map Stop.call).getLast? =
      some (Stop.atNode path above edge node .leave).call := by
  rw [tour_eq, List.map_cons, List.map_append, ← List.cons_append]
  exact List.getLast?_concat

end Closing

end Walker

/-! ## A subtree in its tree -/

/-- The nodes above a place in a subtree: those within the subtree, and farther away those above its top. -/
def Ancestry.onto (inner outer : Ancestry) : Ancestry :=
  ⟨inner.nearestFirst ++ outer.nearestFirst, inner.depth + outer.depth, by
    rw [List.length_append, inner.depth_eq, outer.depth_eq]⟩

theorem Ancestry.none_onto (outer : Ancestry) : Ancestry.none.onto outer = outer :=
  ext_nearestFirst rfl

theorem Ancestry.push_onto (inner outer : Ancestry) (node : Json) :
    (inner.onto outer).push node = (inner.push node).onto outer :=
  ext_nearestFirst rfl

/-- A call of a lone walk, as it is made below the entry of the node in a tree. The nodes above the node are
above all nodes of the subtree, and the edge to the node stands in the calls for the node itself, which lie at
depth zero in the lone walk. -/
def Call.under (entry call : Call) : Call where
  phase := call.phase
  node := call.node
  context :=
    { ancestors := call.context.ancestors.onto entry.context.ancestors
      edge := if call.context.depth = 0 then entry.context.edge else call.context.edge
      nodeType := call.context.nodeType }

theorem Call.parents_under (entry : Call) (calls : List Call) :
    (calls.map entry.under).map (fun call => call.context.parents) =
      calls.map fun call => entry.context.parents ++ call.context.parents := by
  rw [List.map_map]
  apply List.map_congr_left
  intro call _
  exact List.reverse_append

/-- A stop of a lone tour, as it stands below the entry of the node in a tree. -/
def Stop.under (top stop : Stop) : Stop :=
  ⟨top.path ++ stop.path, top.call.under stop.call⟩

namespace Walker

/-- The tour of a node in a subtree is the tour that the subtree has alone, moved below its top. -/
theorem tour_under (walker : Walker) (top : Stop) (node : Json) :
    ∀ (edge : Option Edge) (above : Ancestry) (path : Path),
      walker.tour node (if above.depth = 0 then top.call.context.edge else edge)
          (above.onto top.call.context.ancestors) (top.path ++ path) =
        (walker.tour node edge above path).map (Stop.under top) := by
  induction node using Json.children_induction with
  | step node ih =>
    intro edge above path
    rw [tour_eq, tour_eq, List.map_cons, List.map_append, List.map_flatMap]
    congr 2
    apply List.flatMap_congr
    intro child hchild
    -- below the top no node lies at depth zero any more
    have hdepth : (above.push node).depth ≠ 0 := Nat.succ_ne_zero above.depth
    have hbelow := ih _ child hchild (some child.1) (above.push node) (path ++ [child.1])
    rw [if_neg hdepth] at hbelow
    rw [← hbelow, Ancestry.push_onto, List.append_assoc]

/-- The tour of a node in a tree is its lone tour, moved below the entry. -/
theorem tour_below (walker : Walker) (top : Stop) :
    walker.tour top.call.node top.call.context.edge top.call.context.ancestors top.path =
      (walker.tour top.call.node none .none []).map (Stop.under top) := by
  have hdepth : Ancestry.none.depth = 0 := rfl
  have htour := walker.tour_under top top.call.node none .none []
  rwa [if_pos hdepth, Ancestry.none_onto, List.append_nil] at htour

end Walker

/-! ## Faults in a subtree -/

/-- The fault of a lone walk, as it is found in a tree: behind the path that leads to the node, and with a limit
that counts from the root of the tree. -/
def Fault.under (lead : Path) : Fault → Fault
  | malformed path => malformed (lead ++ path)
  | unknownType nodeType path => unknownType nodeType (lead ++ path)
  | tooDeep limit path => tooDeep (limit + lead.length) (lead ++ path)

theorem Fault.path_under (lead : Path) (fault : Fault) : (fault.under lead).path = lead ++ fault.path := by
  cases fault with
  | malformed path => rfl
  | unknownType nodeType path => rfl
  | tooDeep limit path => rfl

theorem Fault.rank_under (lead : Path) (fault : Fault) : (fault.under lead).rank = fault.rank := by
  cases fault with
  | malformed path => rfl
  | unknownType nodeType path => rfl
  | tooDeep limit path => rfl

namespace Walker

/-- The walker with its limit lowered, if it has one. -/
def lowered (walker : Walker) (depth : Nat) : Walker :=
  { walker with maxDepth := walker.maxDepth.map (· - depth) }

section Lowered

variable {walker : Walker} {lead path : Path} {node : Json} {fault : Fault}
  (hlimit : ∀ limit, walker.maxDepth = some limit → lead.length ≤ limit)

include hlimit

/-- A fault that a lone walk finds is found in the tree too. -/
theorem HasFault.under (h : (walker.lowered lead.length).HasFault path node fault) :
    walker.HasFault (lead ++ path) node (fault.under lead) := by
  cases h with
  | malformed htag => exact .malformed htag
  | tooDeep hlowered hdepth =>
    obtain ⟨limit, hmax, rfl⟩ := Option.map_eq_some_iff.1 hlowered
    have hle := hlimit limit hmax
    rw [Fault.under, Nat.sub_add_cancel hle]
    apply HasFault.tooDeep hmax
    rw [List.length_append]
    omega
  | unknownType htag hkeys hpolicy => exact .unknownType htag hkeys hpolicy

/-- A fault that is found in the tree is found by a lone walk. -/
theorem HasFault.of_under (h : walker.HasFault (lead ++ path) node fault) :
    ∃ lone, (walker.lowered lead.length).HasFault path node lone ∧ fault = lone.under lead := by
  cases h with
  | malformed htag => exact ⟨_, .malformed htag, rfl⟩
  | @tooDeep limit hmax hdepth =>
    have hle := hlimit limit hmax
    rw [List.length_append] at hdepth
    have hlowered : (walker.lowered lead.length).maxDepth = some (limit - lead.length) := by
      rw [lowered, hmax]
      rfl
    refine ⟨_, .tooDeep hlowered (by omega), ?_⟩
    rw [Fault.under, Nat.sub_add_cancel hle]
  | unknownType htag hkeys hpolicy => exact ⟨_, .unknownType htag hkeys hpolicy, rfl⟩

end Lowered

theorem Passes.length_le {walker : Walker} {stop : Stop} (h : walker.Passes stop)
    (hphase : stop.call.phase = .enter) :
    ∀ limit, walker.maxDepth = some limit → stop.path.length ≤ limit := by
  intro limit hmax
  apply Nat.le_of_not_lt
  intro hlt
  exact h hphase _ (.tooDeep hmax hlt)

section Below

variable {walker : Walker} {top stop : Stop}
  (hlimit : ∀ limit, walker.maxDepth = some limit → top.path.length ≤ limit)

include hlimit

/-- A stop passes in the tree exactly if it passes alone. -/
theorem passes_under_iff :
    walker.Passes (top.under stop) ↔ (walker.lowered top.path.length).Passes stop := by
  constructor
  · intro h hphase fault hfault
    exact h hphase _ (hfault.under hlimit)
  · intro h hphase fault hfault
    obtain ⟨lone, hlone, -⟩ := hfault.of_under hlimit
    exact h hphase lone hlone

/-- A stop that fails in the tree fails alone, with the fault of which that in the tree is made. -/
theorem Fails.of_under {fault : Fault} (h : walker.Fails (top.under stop) fault) :
    ∃ lone, (walker.lowered top.path.length).Fails stop lone ∧ fault = lone.under top.path := by
  obtain ⟨hphase, hfault, hfirst⟩ := h
  obtain ⟨lone, hlone, rfl⟩ := hfault.of_under hlimit
  refine ⟨lone, ⟨hphase, hlone, ?_⟩, rfl⟩
  -- the rank of a fault does not depend on where it is found
  intro other hother
  have hrank := hfirst _ (hother.under hlimit)
  rwa [Fault.rank_under, Fault.rank_under] at hrank

end Below

/-! ## Walks of a subtree -/

/-- What an observer does, in one piece: the stops that it has made pass, and behind them there is either no stop
or one that fails. -/
theorem exists_made (walker : Walker) (note : Phase → Json → Context → σ → σ) (root : Json)
    (state : σ) :
    ∃ made rest, walker.depthFirst root = made ++ rest ∧ (∀ stop ∈ made, walker.Passes stop) ∧
      (walker.walk (.observer (ε := ε) note) root state).calls = made.map Stop.call ∧
      ∀ stop after, rest = stop :: after → ∃ fault, walker.Fails stop fault ∧
        (walker.walk (.observer (ε := ε) note) root state).result = .error (.fault fault) := by
  rcases walker.walk_observed (ε := ε) note root state with ⟨-, hpass, hcalls⟩ |
    ⟨before, stop, after, fault, hstops, hpass, hfail, hresult, hcalls⟩
  · exact ⟨_, [], (List.append_nil _).symm, hpass, hcalls, nofun⟩
  · refine ⟨before, stop :: after, hstops, hpass, hcalls, ?_⟩
    rintro _ _ ⟨⟩
    exact ⟨fault, hfail, hresult⟩

/-- From an entry on, the stops that were made are the whole lone tour, moved below the entry, and maybe more, or
the first stops of it. -/
theorem made_of_enter {walker : Walker} {root : Json} {before inner rest : List Stop} {top : Stop}
    (hstops : walker.depthFirst root = before ++ top :: (inner ++ rest))
    (hphase : top.call.phase = .enter) :
    (∃ more, top :: inner =
      (walker.tour top.call.node none .none []).map (Stop.under top) ++ more) ∨
    ∃ stop more after, (walker.tour top.call.node none .none []).map (Stop.under top) =
      top :: inner ++ stop :: more ∧ rest = stop :: after := by
  have hmem : top ∈ walker.depthFirst root := by
    rw [hstops]
    exact List.mem_append_right _ List.mem_cons_self
  rw [depthFirst_eq_tour hmem] at hstops
  obtain ⟨later, hlater⟩ := tour_from_enter root none .none [] hstops hphase
  rw [tour_below, ← List.cons_append] at hlater
  rcases List.append_eq_append_iff.1 hlater with ⟨_ | ⟨stop, more⟩, htour, hrest⟩ | ⟨more, hinner, -⟩
  · -- the last stop that was made is the last of the lone tour
    exact Or.inl ⟨[], by rw [htour, List.append_nil, List.append_nil]⟩
  · exact Or.inr ⟨stop, more, _, htour, hrest⟩
  · exact Or.inl ⟨more, hinner⟩

section Alone

variable {walker : Walker} {top : Stop} {inner : List Stop}
  (hlimit : ∀ limit, walker.maxDepth = some limit → top.path.length ≤ limit)
  (hnull : top.call.node.isNull = false) (hpass : ∀ stop ∈ top :: inner, walker.Passes stop)

theorem depthFirst_lowered (depth : Nat) {node : Json} (h : node.isNull = false) :
    (walker.lowered depth).depthFirst node = walker.tour node none .none [] := by
  rw [depthFirst, h]
  apply tour_of_registry
  rfl

include hlimit hnull hpass

/-- If the node is left, the lone walk completes, and its calls are those from the entry to the end. -/
theorem walk_alone_of_closed {more : List Stop}
    (hinner : top :: inner = (walker.tour top.call.node none .none []).map (Stop.under top) ++ more)
    (note : Phase → Json → Context → σ → σ) (state : σ) :
    ((walker.lowered top.path.length).walk (.observer (ε := ε) note) top.call.node state).result =
        .ok .completed ∧
      untilClosed [] ((top :: inner).map Stop.call) =
        ((walker.lowered top.path.length).walk (.observer (ε := ε) note) top.call.node
          state).calls.map top.call.under ∧
      openCalls (untilClosed [] ((top :: inner).map Stop.call)) = [] ∧
      (untilClosed [] ((top :: inner).map Stop.call)).getLast? =
        some ⟨.leave, top.call.node, top.call.context⟩ := by
  have hlone : ∀ stop ∈ (walker.lowered top.path.length).depthFirst top.call.node,
      (walker.lowered top.path.length).Passes stop := by
    intro stop hstop
    rw [depthFirst_lowered _ hnull] at hstop
    rw [← passes_under_iff hlimit]
    apply hpass
    rw [hinner]
    exact List.mem_append_left _ (List.mem_map_of_mem hstop)
  obtain ⟨hresult, hcalls⟩ := walk_of_passes (ε := ε) hlone note state
  have hclosed : untilClosed [] ((top :: inner).map Stop.call) = (walker.tour top.call.node
      top.call.context.edge top.call.context.ancestors top.path).map Stop.call := by
    rw [hinner, ← tour_below, List.map_append, untilClosed_tour]
  refine ⟨hresult, ?_, ?_, ?_⟩
  · rw [hclosed, hcalls, depthFirst_lowered _ hnull, tour_below, List.map_map, List.map_map]
    rfl
  · rw [hclosed]
    exact walker.foldl_turn_tour _ _ _ _ []
  · -- the tour begins with the entry, so that the node is left in the context of the entry
    rw [← tour_below, tour_eq, List.cons_append, List.cons.injEq] at hinner
    have hcontext : top.call.context = ⟨top.call.context.ancestors, top.call.context.edge,
        top.call.node.tag?.getD ""⟩ := congrArg (fun stop => stop.call.context) hinner.1
    rw [hclosed, getLast?_tour, hcontext]
    rfl

/-- If the walk fails before the node is left, the lone walk fails at the same stop, and its calls are those from
the entry on. -/
theorem walk_alone_of_fails {stop : Stop} {more : List Stop} {fault : Fault}
    (hinner : (walker.tour top.call.node none .none []).map (Stop.under top) =
      top :: inner ++ stop :: more)
    (hfail : walker.Fails stop fault) (note : Phase → Json → Context → σ → σ) (state : σ) :
    ∃ lone, ((walker.lowered top.path.length).walk (.observer (ε := ε) note) top.call.node
        state).result = .error (.fault lone) ∧ fault = lone.under top.path ∧
      (top :: inner).map Stop.call =
        ((walker.lowered top.path.length).walk (.observer (ε := ε) note) top.call.node
          state).calls.map top.call.under := by
  -- the stops of the lone tour before and after the one that fails
  obtain ⟨before, behind, htour, hbefore, hbehind⟩ := List.map_eq_append_iff.1 hinner
  obtain ⟨failed, after, rfl, rfl, -⟩ := List.map_eq_cons_iff.1 hbehind
  obtain ⟨lone, hlone, rfl⟩ := hfail.of_under hlimit
  have hpass' : ∀ stop ∈ before, (walker.lowered top.path.length).Passes stop := by
    intro stop hstop
    rw [← passes_under_iff hlimit]
    apply hpass
    rw [← hbefore]
    exact List.mem_map_of_mem hstop
  rw [← depthFirst_lowered top.path.length hnull] at htour
  obtain ⟨hresult, hcalls⟩ := walk_of_fails (ε := ε) htour hpass' hlone note state
  refine ⟨lone, hresult, rfl, ?_⟩
  rw [hcalls, ← hbefore, List.map_map, List.map_map]
  rfl

end Alone

/-- A lone walk of a node that was entered does not fail at the node itself. -/
theorem path_ne_nil_of_alone {walker : Walker} {top : Stop}
    (hlimit : ∀ limit, walker.maxDepth = some limit → top.path.length ≤ limit)
    (hphase : top.call.phase = .enter) (hpass : walker.Passes top) {visitor : Visitor σ ε} {state : σ}
    {fault : Fault} (h : ((walker.lowered top.path.length).walk visitor top.call.node state).result =
      .error (.fault fault)) : fault.path ≠ [] := by
  intro hnil
  obtain ⟨node, hnode, hreports, -⟩ := reports_of_result h
  rw [hnil] at hnode hreports
  rw [hnode.eq_of_nil] at hreports
  have hfault := hreports.1.under hlimit
  rw [List.append_nil] at hfault
  exact hpass hphase _ hfault

/-- The text of a path in a tree, from the texts of the path to a node and of the path below it. -/
theorem render_lead {walker : Walker} {root node below : Json} {lead path : Path} {depth : Nat}
    (hlead : walker.Reachable root lead node) (hpath : (walker.lowered depth).Reachable node path below)
    (hne : path ≠ [])
    (hnames : ∀ name keys, walker.registry.keys? name = some keys → "" ∉ keys) :
    (lead ++ path).render =
      if lead = [] then path.render else lead.render ++ "." ++ path.render := by
  have hlisted : ∀ name keys, walker.registry.keys? name = some keys → ∀ key ∈ keys, key ≠ "" :=
    fun name keys hkeys key hkey hempty => hnames name keys hkeys (hempty ▸ hkey)
  split
  · rename_i hnil
    rw [hnil, List.nil_append]
  · rename_i hlong
    apply Path.render_append hlong hne
    intro edge hedge
    rcases List.mem_append.1 hedge with hedge | hedge
    · exact hlead.forall_field hlisted edge hedge
    · exact hpath.forall_field hlisted edge hedge

/-- Where a call of a walk that enters a node stands in the tour: the stops before it, and those of the walk that
come after it. -/
theorem exists_stop {made : List Stop} {k : Nat} {entry : Call}
    (h : (made.map Stop.call)[k]? = some entry) :
    ∃ before top inner, made = before ++ top :: inner ∧ top.call = entry ∧
      (made.map Stop.call).take k = before.map Stop.call ∧
      (made.map Stop.call).drop k = (top :: inner).map Stop.call := by
  rw [List.getElem?_map] at h
  obtain ⟨top, htop, hcall⟩ := Option.map_eq_some_iff.1 h
  obtain ⟨hk, rfl⟩ := List.getElem?_eq_some_iff.1 htop
  refine ⟨made.take k, made[k], made.drop (k + 1), ?_, hcall, List.map_take.symm, ?_⟩
  · rw [List.getElem_cons_drop, List.take_append_drop]
  · rw [List.getElem_cons_drop, List.map_drop]

/-- A visitor that always goes on walks every node as if it were alone. Take a call that enters a node, and the
calls from there to the end of the node, or to the end of the walk if the node is not left. They are the calls of
a walk of the node as a root, with the limit lowered by the depth of the node, where the nodes above the node come
first among the parents and the edge to the node stands in its own two calls.

If the node is left, the lone walk completes. If it is not, the lone walk fails, and the walk fails with the same
fault, found behind the path to the node and with the limit of the tree. Where no listed field has an empty name,
the text of its path is the text of the path to the node, a point, and the text that the lone walk reports. -/
theorem walk_subtree (walker : Walker) (note : Phase → Json → Context → σ → σ) (root : Json)
    (state : σ) (other : Phase → Json → Context → τ → τ) (start : τ) {k : Nat} {entry : Call}
    (hentry : (walker.walk (.observer (ε := ε) note) root state).calls[k]? = some entry)
    (hphase : entry.phase = .enter) :
    let run := walker.walk (.observer (ε := ε) note) root state
    let visit := untilClosed [] (run.calls.drop k)
    let lead := entry.path (openCalls (run.calls.take k))
    let alone := (walker.lowered entry.context.depth).walk (.observer (ε := ε) other) entry.node start
    walker.Reachable root lead entry.node ∧ lead.length = entry.context.depth ∧
    (∀ limit, walker.maxDepth = some limit → entry.context.depth ≤ limit) ∧
    visit = alone.calls.map entry.under ∧
    visit.map (fun call => call.context.parents) =
      alone.calls.map (fun call => entry.context.parents ++ call.context.parents) ∧
    (openCalls visit = [] →
      visit.getLast? = some ⟨.leave, entry.node, entry.context⟩ ∧ alone.result = .ok .completed) ∧
    (openCalls visit ≠ [] → visit = run.calls.drop k ∧ ∃ fault,
      alone.result = .error (.fault fault) ∧ run.result = .error (.fault (fault.under lead)) ∧
      ((∀ name keys, walker.registry.keys? name = some keys → "" ∉ keys) →
        (fault.under lead).path.render =
          if lead = [] then fault.path.render else lead.render ++ "." ++ fault.path.render)) := by
  intro run visit lead alone
  obtain ⟨made, rest, hstops, hpass, hcalls, hnext⟩ := walker.exists_made (ε := ε) note root state
  rw [hcalls] at hentry
  obtain ⟨before, top, inner, rfl, rfl, htake, hdrop⟩ := exists_stop hentry
  rw [List.append_assoc, List.cons_append] at hstops
  have hmem : top ∈ walker.depthFirst root := by
    rw [hstops]
    exact List.mem_append_right _ List.mem_cons_self
  have hreach := reachable_of_mem_depthFirst hmem
  have hnull := hreach.isNull_node
  -- the place of the entry, as the calls before it and its context tell
  have hlead : lead = top.path := by
    show top.call.path (openCalls (run.calls.take k)) = top.path
    rw [hcalls, htake, path_of_depthFirst hstops hphase]
  have hdepth := depth_of_mem_depthFirst hmem
  have htop : ∀ stop ∈ top :: inner, walker.Passes stop :=
    fun stop hstop => hpass stop (List.mem_append_right _ hstop)
  have hlimit := (htop top List.mem_cons_self).length_le hphase
  have hvisit : visit = untilClosed [] ((top :: inner).map Stop.call) := by
    show untilClosed [] (run.calls.drop k) = _
    rw [hcalls, hdrop]
  have halone : alone =
      (walker.lowered top.path.length).walk (.observer (ε := ε) other) top.call.node start := by
    rw [← hdepth]
  rw [hlead, hvisit, halone, hdepth]
  refine ⟨hreach, rfl, hlimit, ?_⟩
  rcases made_of_enter hstops hphase with ⟨more, hinner⟩ | ⟨stop, more, after, htour, hrest⟩
  · obtain ⟨hresult, hunder, hclosed, hlast⟩ :=
      walk_alone_of_closed (ε := ε) hlimit hnull htop hinner other start
    refine ⟨hunder, ?_, fun _ => ⟨hlast, hresult⟩, fun hopen => absurd hclosed hopen⟩
    rw [hunder, Call.parents_under]
  · obtain ⟨fault, hfail, hresult⟩ := hnext stop after hrest
    obtain ⟨lone, hlone, rfl, hunder⟩ :=
      walk_alone_of_fails (ε := ε) hlimit hnull htop htour hfail other start
    obtain ⟨hopen, hne⟩ := walker.untilClosed_part _ _ _ _ ((walker.tour_below top).trans htour)
      (List.cons_ne_nil top inner)
    rw [hopen]
    refine ⟨hunder, ?_, fun hclosed => absurd hclosed hne, fun _ => ⟨?_, lone, hlone, hresult, ?_⟩⟩
    · rw [hunder, Call.parents_under]
    · rw [hcalls, hdrop]
    · intro hnames
      obtain ⟨node, hnode, -⟩ := reports_of_result hlone
      rw [Fault.path_under]
      exact render_lead hreach hnode
        (path_ne_nil_of_alone hlimit hphase (htop top List.mem_cons_self) hlone) hnames

/-- The call that enters the middle one of three nested blocks. -/
def middleEntry : Call :=
  ⟨.enter, .object [("body", .array [.null, .object [("type", .string "Block")]]),
    ("type", .string "Block")], Ancestry.none.push nestedBlocks, some ⟨"body", some 0⟩, "Block"⟩

/-- With the limit one, a walk of three nested blocks fails right below the middle one. Alone, with the limit zero,
the middle block fails in the same way. -/
theorem walk_subtree_nestedBlocks :
    (blocks.walk (.observer (ε := Empty) fun _ _ _ n => n + 1) nestedBlocks 0).calls[1]? =
      some middleEntry ∧
    untilClosed [] ((blocks.walk (.observer (ε := Empty) fun _ _ _ n => n + 1) nestedBlocks
      0).calls.drop 1) = [middleEntry] ∧
    ∃ fault, ((blocks.lowered 1).walk (.observer (ε := Empty) fun _ _ _ n => n + 1) middleEntry.node
        0).result = .error (.fault fault) ∧
      (blocks.walk (.observer (ε := Empty) fun _ _ _ n => n + 1) nestedBlocks 0).result =
        .error (.fault (fault.under [⟨"body", some 0⟩])) ∧
      (fault.under [⟨"body", some 0⟩]).path.render = "body[0]" ++ "." ++ fault.path.render := by
  have hentry : (blocks.walk (.observer (ε := Empty) fun _ _ _ n => n + 1) nestedBlocks 0).calls[1]? =
      some middleEntry := by cbv
  have hvisit : untilClosed [] ((blocks.walk (.observer (ε := Empty) fun _ _ _ n => n + 1) nestedBlocks
      0).calls.drop 1) = [middleEntry] := by cbv
  have hlead : middleEntry.path (openCalls ((blocks.walk (.observer (ε := Empty) fun _ _ _ n => n + 1)
      nestedBlocks 0).calls.take 1)) = [⟨"body", some 0⟩] := by cbv
  have hplain : blocks.registry.HasPlainNames :=
    Registry.hasPlainNames_of_extensions (by decide)
  obtain ⟨-, -, -, -, -, -, hopen⟩ :=
    walk_subtree blocks _ nestedBlocks 0 (fun _ _ _ (n : Nat) => n + 1) 0 hentry rfl
  rw [hvisit, hlead] at hopen
  obtain ⟨-, fault, halone, hresult, htext⟩ := hopen (List.cons_ne_nil middleEntry [])
  refine ⟨hentry, hvisit, fault, halone, hresult, ?_⟩
  apply htext
  intro name keys hkeys hempty
  exact (hplain name keys hkeys "" hempty).ne_empty rfl

end Walker

end SyntaxWalk
