import Mathlib
import SyntaxWalk.Proofs.Registry
import SyntaxWalk.Proofs.Walk.Visible

/-!
# What of a registry matters to a walk

A walk looks up the tags of the nodes that it takes from its stack to enter them (`Walker.reached`), and
nothing else of the registry. So two registries that list the same fields for these tags give the same walk
(`walk_of_agreeOn`): an entry that is added or overridden for another name makes no difference, nor does
one that is overridden with its own fields.

A node of an unknown type is visited by a lenient walk like a node whose entry lists no fields. A lenient
walk is therefore a strict walk over the registry with such entries for all unknown tags of the tree
(`Registry.withLeaves`), but for the warnings in its log (`Run.quiet`). Both facts are proved for one step of
the machine and then for runs, and stated together as `walk_entries`.
-/

set_option autoImplicit false

namespace SyntaxWalk

universe u v

variable {σ : Type u} {ε : Type v}

/-! ## The tags of a tree

All values of a tree count here, also those that no walk comes to: what an array holds in an array, and what
stands in fields that no entry lists. -/

namespace Json

mutual

/-- The tags of a value and of all values in it. -/
def tags : Json → List String
  | array items => tagsOfItems items
  | object members => (object members).tag?.toList ++ tagsOfMembers members
  | _ => []

/-- The tags of the items of an array and of all values in them. -/
def tagsOfItems : List Json → List String
  | [] => []
  | item :: rest => item.tags ++ tagsOfItems rest

/-- The tags of the members of an object and of all values in them. -/
def tagsOfMembers : List (String × Json) → List String
  | [] => []
  | (_, value) :: rest => value.tags ++ tagsOfMembers rest

end

/-- The tag of a value is among its tags. -/
theorem mem_tags_of_tag? {node : Json} {tag : String} (h : node.tag? = some tag) :
    tag ∈ node.tags := by
  cases node with
  | object members =>
    rw [tags, h]
    exact List.mem_append_left _ List.mem_cons_self
  | null => cases h
  | bool b => cases h
  | number n => cases h
  | string s => cases h
  | array items => cases h

theorem tags_subset_tagsOfItems {item : Json} {items : List Json} (h : item ∈ items) :
    item.tags ⊆ tagsOfItems items := by
  induction items with
  | nil => cases h
  | cons first rest ih =>
    rw [tagsOfItems]
    rcases List.mem_cons.1 h with rfl | h
    · exact List.subset_append_left _ _
    · exact List.subset_append_of_subset_right _ (ih h)

theorem tags_subset_tagsOfMembers {name : String} {value : Json} {members : Bindings Json}
    (h : (name, value) ∈ members) : value.tags ⊆ tagsOfMembers members := by
  induction members with
  | nil => cases h
  | cons first rest ih =>
    rcases first with ⟨other, held⟩
    rw [tagsOfMembers]
    rcases List.mem_cons.1 h with heq | h
    · cases heq
      exact List.subset_append_left _ _
    · exact List.subset_append_of_subset_right _ (ih h)

theorem tags_subset_of_get? {node value : Json} {name : String} (h : node.get? name = some value) :
    value.tags ⊆ node.tags := by
  cases node with
  | object members =>
    rw [tags]
    apply List.subset_append_of_subset_right
    exact tags_subset_tagsOfMembers (Bindings.mem_of_get? h)
  | null => cases h
  | bool b => cases h
  | number n => cases h
  | string s => cases h
  | array items => cases h

/-- The tags in a child are tags in its parent. -/
theorem tags_subset_of_mem_children {node : Json} {keys : List String} {child : Edge × Json}
    (h : child ∈ node.children keys) : child.2.tags ⊆ node.tags := by
  obtain ⟨key, -, hchild⟩ := List.mem_flatMap.1 h
  rw [field] at hchild
  split at hchild
  · cases hchild
  · rename_i value hvalue
    refine List.Subset.trans ?_ (tags_subset_of_get? hvalue)
    cases value with
    | object members =>
      rw [List.mem_singleton.1 hchild]
      exact List.Subset.refl _
    | array items =>
      rw [tags]
      exact tags_subset_tagsOfItems (Field.mem_of_mem_nodesFrom hchild)
    | null => cases hchild
    | bool b => cases hchild
    | number n => cases hchild
    | string s => cases hchild

end Json

/-! ## Entries without fields -/

/-- The registry with an entry without fields for each of the given names that it does not contain. -/
def Registry.withLeaves (registry : Registry) (names : List String) : Registry :=
  registry.extend (.entries ((names.filter fun name => !registry.contains name).map
    fun name => (name, [])))

theorem Bindings.get?_map_pair {α : Type u} (name : String) (names : List String) (value : α) :
    Bindings.get? name (names.map fun other => (other, value)) =
      if name ∈ names then some value else none := by
  induction names with
  | nil => rfl
  | cons first rest ih =>
    by_cases h : first = name
    · simp [Bindings.get?, h]
    · simp [Bindings.get?, h, Ne.symm h, ih]

/-- The names that were there keep their fields, and the new ones have none. -/
theorem Registry.keys?_withLeaves (registry : Registry) (names : List String) (name : String) :
    (registry.withLeaves names).keys? name =
      (registry.keys? name).or (if name ∈ names then some [] else none) := by
  rw [withLeaves, keys?_extend, lastWritten?, List.flatMap_singleton, BuildStep.written,
    ← List.map_reverse, Bindings.get?_map_pair]
  cases hkeys : registry.keys? name with
  | some keys =>
    have hcontains : registry.contains name = true := by
      rw [← Bool.not_eq_false, ← keys?_eq_none_iff, hkeys]
      exact Option.some_ne_none keys
    simp [hcontains]
  | none => simp [keys?_eq_none_iff.1 hkeys]

/-- A node whose tag is among the given names is found to be known, and all else is found as by a lenient
walker over the registry as it was. -/
theorem Walker.examine_withLeaves {registry : Registry} {names : List String} {node : Json}
    (h : ∀ tag, node.tag? = some tag → tag ∈ names) (limit : Option Nat) (depth : Nat)
    (place : Place) :
    (Walker.mk (registry.withLeaves names) .strict limit).examine node depth place =
      ((Walker.mk registry .lenient limit).examine node depth place).map
        fun found => { found with known := true } := by
  unfold examine
  cases htag : node.tag? with
  | none => rfl
  | some tag =>
    have hexceeded : (Walker.mk (registry.withLeaves names) .strict limit).exceeded? depth =
        (Walker.mk registry .lenient limit).exceeded? depth := rfl
    dsimp only
    rw [hexceeded]
    cases (Walker.mk registry .lenient limit).exceeded? depth with
    | some bound => rfl
    | none =>
      dsimp only
      cases hkeys : registry.keys? tag with
      | some keys =>
        rw [Registry.keys?_withLeaves, hkeys]
        rfl
      | none =>
        rw [Registry.keys?_withLeaves, hkeys, if_pos (h tag htag)]
        rfl

/-! ## Leaving out warnings -/

/-- Is the entry no warning? -/
def Log.isQuiet (entry : Log) : Bool :=
  entry.level ≠ .warn

/-- What was done, without the warnings in the log. -/
def Progress.quiet (progress : Progress σ) : Progress σ :=
  { progress with logs := progress.logs.filter Log.isQuiet }

/-- What a walk leaves behind, without the warnings in its log. -/
def Run.quiet (run : Run σ ε) : Run σ ε :=
  { run with logs := run.logs.filter Log.isQuiet }

/-- The machine without the warnings in its log. -/
def Machine.quiet (machine : Machine σ) : Machine σ :=
  { machine with progress := machine.progress.quiet }

namespace Progress

@[simp] theorem quiet_noteUnknown (progress : Progress σ) (found : Walker.Finding) (place : Place) :
    (progress.noteUnknown found place).quiet = progress.quiet := by
  unfold noteUnknown
  split
  · rfl
  · simp [quiet, log, Log.isQuiet, Log.level]

theorem quiet_call (progress : Progress σ) (visitor : Visitor σ ε) (phase : Phase) (node : Json)
    (context : Context) :
    (progress.call visitor phase node context).2.quiet =
      (progress.quiet.call visitor phase node context).2 := rfl

theorem quiet_finish (progress : Progress σ) (result : Except (Failure ε) Outcome) :
    (progress.finish result).quiet = progress.quiet.finish result := by
  simp [Run.quiet, finish, quiet]

theorem quiet_completed (progress : Progress σ) :
    (progress.completed : Run σ ε).quiet = progress.quiet.completed := by
  rw [completed, quiet_finish]
  simp [completed, quiet, log, Log.isQuiet, Log.level]

theorem quiet_stopped (progress : Progress σ) (phase : Phase) :
    (progress.stopped phase : Run σ ε).quiet = progress.quiet.stopped phase := by
  rw [stopped, quiet_finish]
  simp [stopped, quiet, log, Log.isQuiet, Log.level]

end Progress

namespace Machine

/-! ## A lenient and a strict walk in lockstep -/

/-- All nodes still to be entered have their tags among those of the tree. -/
def Covered (names : List String) (machine : Machine σ) : Prop :=
  ∀ node edge, Frame.enter node edge ∈ machine.stack → node.tags ⊆ names

/-- A step puts no nodes on the stack but children of a node that was there. -/
theorem Covered.step {names : List String} {walker : Walker} {visitor : Visitor σ ε}
    {machine next : Machine σ} (h : Covered names machine)
    (hsteps : Steps walker visitor machine next) : Covered names next := by
  intro other edge' hother
  cases hsteps with
  | @enter node edge rest found action hstack hfound hanswer haction =>
    rw [stack_descend, List.mem_append, List.mem_cons] at hother
    rcases hother with hchild | hleave | hrest
    · obtain ⟨child, hvisited, heq⟩ := List.mem_map.1 hchild
      cases heq
      have hnode := h node edge (by rw [hstack]; exact List.mem_cons_self)
      have hbelow := Json.tags_subset_of_mem_children (Walker.mem_children_of_visited hvisited)
      exact List.Subset.trans hbelow hnode
    · cases hleave
    · exact h other edge' (by rw [hstack]; exact List.mem_cons_of_mem _ hrest)
  | leave hstack hanswer haction =>
    exact h other edge' (by rw [hstack]; exact List.mem_cons_of_mem _ hother)

section Quiet

variable {registry : Registry} {names : List String} {limit : Option Nat} {visitor : Visitor σ ε}
  {machine : Machine σ}

theorem quiet_entering (machine : Machine σ) (visitor : Visitor σ ε) (node : Json)
    (edge : Option Edge) (found : Walker.Finding) :
    (machine.entering visitor node edge found).quiet =
      machine.quiet.entering visitor node edge { found with known := true } := by
  rw [entering, Progress.quiet_call, Progress.quiet_noteUnknown]
  rfl

/-- The node on top of the stack is examined with the same outcome, but as a known one. -/
theorem Covered.examine_eq (h : Covered names machine) {node : Json} {edge : Option Edge}
    {rest : List Frame} (hstack : machine.stack = .enter node edge :: rest)
    {outcome : Except Fault Walker.Finding}
    (houtcome : (Walker.mk registry .lenient limit).examine node machine.ancestors.depth
      ⟨edge, machine.steps⟩ = outcome) :
    (Walker.mk (registry.withLeaves names) .strict limit).examine node
        machine.quiet.ancestors.depth ⟨edge, machine.quiet.steps⟩ =
      outcome.map fun found => { found with known := true } := by
  rw [← houtcome]
  apply Walker.examine_withLeaves
  intro tag htag
  exact h node edge (by rw [hstack]; exact List.mem_cons_self) (Json.mem_tags_of_tag? htag)

/-- Every step of the lenient walk is a step of the strict one. -/
theorem Covered.steps_quiet {next : Machine σ} (h : Covered names machine)
    (hsteps : Steps ⟨registry, .lenient, limit⟩ visitor machine next) :
    Steps ⟨registry.withLeaves names, .strict, limit⟩ visitor machine.quiet next.quiet := by
  cases hsteps with
  | @enter node edge rest found action hstack hfound hanswer haction =>
    have hnext : (machine.descend (machine.entering visitor node edge found).countNode node edge
        found action rest).quiet =
        machine.quiet.descend (machine.quiet.entering visitor node edge
          { found with known := true }).countNode node edge { found with known := true } action
          rest := by
      rw [← quiet_entering]
      rfl
    rw [hnext]
    exact .enter hstack (h.examine_eq hstack hfound) hanswer haction
  | leave hstack hanswer haction => exact .leave hstack hanswer haction

/-- The strict walk ends when the lenient one does, and in the same way. -/
theorem Covered.halts_quiet {run : Run σ ε} (h : Covered names machine)
    (hhalts : Halts ⟨registry, .lenient, limit⟩ visitor machine run) :
    Halts ⟨registry.withLeaves names, .strict, limit⟩ visitor machine.quiet run.quiet := by
  cases hhalts with
  | completed hstack =>
    rw [Progress.quiet_completed]
    exact .completed hstack
  | fault hstack hfault =>
    rw [Progress.failed, Progress.quiet_finish]
    exact .fault hstack (h.examine_eq hstack hfault)
  | enterFailed hstack hfound hanswer =>
    rw [Progress.failed, Progress.quiet_finish, quiet_entering]
    exact .enterFailed hstack (h.examine_eq hstack hfound) hanswer
  | @enterStopped node edge rest found hstack hfound hanswer =>
    have hcount : (machine.entering visitor node edge found).countNode.quiet =
        (machine.quiet.entering visitor node edge { found with known := true }).countNode := by
      rw [← quiet_entering]
      rfl
    rw [Progress.quiet_stopped, hcount]
    exact .enterStopped hstack (h.examine_eq hstack hfound) hanswer
  | leaveFailed hstack hanswer =>
    rw [Progress.failed, Progress.quiet_finish]
    exact .leaveFailed hstack hanswer
  | leaveStopped hstack hanswer =>
    rw [Progress.quiet_stopped]
    exact .leaveStopped hstack hanswer

/-- From one machine on, the strict run is the lenient run without its warnings. -/
theorem Covered.run_quiet (h : Covered names machine) :
    machine.quiet.run ⟨registry.withLeaves names, .strict, limit⟩ visitor =
      (machine.run ⟨registry, .lenient, limit⟩ visitor).quiet := by
  refine @run_of_lockstep _ _ _ _ ⟨registry, .lenient, limit⟩
    ⟨registry.withLeaves names, .strict, limit⟩ visitor visitor
    (fun m m' => Covered names m ∧ m' = m.quiet) (fun run run' => run' = run.quiet) ?_ ?_
    machine machine.quiet ⟨h, rfl⟩
  · rintro m _ next ⟨hcovered, rfl⟩ hsteps
    exact ⟨next.quiet, hcovered.steps_quiet hsteps, hcovered.step hsteps, rfl⟩
  · rintro m _ run ⟨hcovered, rfl⟩ hhalts
    exact ⟨run.quiet, hcovered.halts_quiet hhalts, rfl⟩

end Quiet

end Machine

/-- A lenient walk is, but for its warnings, a strict walk over the registry with entries without fields for
the unknown tags of the tree. -/
theorem Walker.walk_withLeaves (registry : Registry) (limit : Option Nat) (visitor : Visitor σ ε)
    (root : Json) (state : σ) :
    (Walker.mk (registry.withLeaves root.tags) .strict limit).walk visitor root state =
      ((Walker.mk registry .lenient limit).walk visitor root state).quiet := by
  unfold walk
  split
  · rfl
  · have hcovered : Machine.Covered root.tags (Machine.start root state) := by
      intro node edge hnode
      cases List.mem_singleton.1 hnode
      exact List.Subset.refl _
    exact hcovered.run_quiet

/-! ## The nodes that a walk takes from its stack -/

namespace Machine

/-- The node that the next step takes from the stack to enter it. -/
def nextNode? (machine : Machine σ) : Option Json :=
  match machine.stack with
  | .enter node _ :: _ => some node
  | _ => none

/-- The nodes that a run takes from the stack to enter them, in order, also one that then cannot be
entered. -/
def reached (walker : Walker) (visitor : Visitor σ ε) (machine : Machine σ) : List Json :=
  match _h : machine.step walker visitor with
  | .halt _ => machine.nextNode?.toList
  | .next next => machine.nextNode?.toList ++ next.reached walker visitor
termination_by walker.stackWork machine.stack
decreasing_by exact stackWork_step_lt _h

section Reached

variable {walker : Walker} {visitor : Visitor σ ε} {machine : Machine σ}

/-- What a run reaches from its second step on is reached by it. -/
theorem reached_subset_of_next {next : Machine σ} (h : machine.step walker visitor = .next next) :
    next.reached walker visitor ⊆ machine.reached walker visitor := by
  rw [reached.eq_def walker visitor machine]
  split
  · rename_i hstep
    rw [h] at hstep
    cases hstep
  · rename_i hstep
    rw [h] at hstep
    cases hstep
    exact List.subset_append_right _ _

theorem mem_reached_of_stack {node : Json} {edge : Option Edge} {rest : List Frame}
    (h : machine.stack = .enter node edge :: rest) : node ∈ machine.reached walker visitor := by
  have hnode : machine.nextNode?.toList = [node] := by
    rw [nextNode?, h]
    rfl
  rw [reached, hnode]
  split
  · exact List.mem_cons_self
  · exact List.mem_cons_self

end Reached

end Machine

/-- The nodes that a walk takes from its stack to enter them. -/
def Walker.reached (walker : Walker) (visitor : Visitor σ ε) (root : Json) (state : σ) : List Json :=
  if root.isNull then [] else (Machine.start root state).reached walker visitor

/-- Two registries list the same fields for the tag of a node, or both know none. -/
def Registry.AgreeOn (registry other : Registry) (node : Json) : Prop :=
  ∀ tag, node.tag? = some tag → other.keys? tag = registry.keys? tag

/-- The examination looks up nothing but the tag of the node. -/
theorem Walker.examine_of_agreeOn {registry other : Registry} {node : Json}
    (h : registry.AgreeOn other node) (policy : UnknownTypes) (limit : Option Nat) (depth : Nat)
    (place : Place) :
    (Walker.mk other policy limit).examine node depth place =
      (Walker.mk registry policy limit).examine node depth place := by
  unfold examine
  cases htag : node.tag? with
  | none => rfl
  | some tag =>
    dsimp only
    rw [h tag htag]
    rfl

namespace Machine

section Agree

variable {registry other : Registry} {policy : UnknownTypes} {limit : Option Nat}
  {visitor : Visitor σ ε} {machine : Machine σ}

/-- Where the registries agree on the next node, a step over the one is a step over the other. -/
theorem Steps.of_agreeOn {next : Machine σ}
    (h : ∀ node edge rest, machine.stack = .enter node edge :: rest → registry.AgreeOn other node)
    (hsteps : Steps ⟨registry, policy, limit⟩ visitor machine next) :
    Steps ⟨other, policy, limit⟩ visitor machine next := by
  cases hsteps with
  | enter hstack hfound hanswer haction =>
    have hexamine := Walker.examine_of_agreeOn (h _ _ _ hstack) policy limit
    exact .enter hstack ((hexamine _ _).trans hfound) hanswer haction
  | leave hstack hanswer haction => exact .leave hstack hanswer haction

/-- Where the registries agree on the next node, a walk over the one ends as a walk over the other. -/
theorem Halts.of_agreeOn {run : Run σ ε}
    (h : ∀ node edge rest, machine.stack = .enter node edge :: rest → registry.AgreeOn other node)
    (hhalts : Halts ⟨registry, policy, limit⟩ visitor machine run) :
    Halts ⟨other, policy, limit⟩ visitor machine run := by
  cases hhalts with
  | completed hstack => exact .completed hstack
  | fault hstack hfault =>
    have hexamine := Walker.examine_of_agreeOn (h _ _ _ hstack) policy limit
    exact .fault hstack ((hexamine _ _).trans hfault)
  | enterFailed hstack hfound hanswer =>
    have hexamine := Walker.examine_of_agreeOn (h _ _ _ hstack) policy limit
    exact .enterFailed hstack ((hexamine _ _).trans hfound) hanswer
  | enterStopped hstack hfound hanswer =>
    have hexamine := Walker.examine_of_agreeOn (h _ _ _ hstack) policy limit
    exact .enterStopped hstack ((hexamine _ _).trans hfound) hanswer
  | leaveFailed hstack hanswer => exact .leaveFailed hstack hanswer
  | leaveStopped hstack hanswer => exact .leaveStopped hstack hanswer

/-- Registries that agree on all nodes that a run reaches give the same run. -/
theorem run_of_agreeOn (h : ∀ node ∈ machine.reached ⟨registry, policy, limit⟩ visitor,
      registry.AgreeOn other node) :
    machine.run ⟨other, policy, limit⟩ visitor = machine.run ⟨registry, policy, limit⟩ visitor := by
  -- what the rest of the run reaches is known from the start, so that the hypothesis is carried along
  refine @run_of_lockstep _ _ _ _ ⟨registry, policy, limit⟩ ⟨other, policy, limit⟩ visitor visitor
    (fun m m' => m' = m ∧
      ∀ node ∈ m.reached ⟨registry, policy, limit⟩ visitor, registry.AgreeOn other node)
    (fun run run' => run' = run) ?_ ?_ machine machine ⟨rfl, h⟩
  · rintro m _ next ⟨rfl, hagree⟩ hsteps
    refine ⟨next, hsteps.of_agreeOn ?_, rfl, ?_⟩
    · intro node edge rest hstack
      exact hagree node (mem_reached_of_stack hstack)
    · intro node hnode
      exact hagree node (reached_subset_of_next hsteps.step_eq hnode)
  · rintro m _ run ⟨rfl, hagree⟩ hhalts
    refine ⟨run, hhalts.of_agreeOn ?_, rfl⟩
    intro node edge rest hstack
    exact hagree node (mem_reached_of_stack hstack)

end Agree

end Machine

namespace Walker

/-- Registries that agree on all nodes that a walk reaches give the same walk. -/
theorem walk_of_agreeOn {registry other : Registry} {policy : UnknownTypes} {limit : Option Nat}
    {visitor : Visitor σ ε} {root : Json} {state : σ}
    (h : ∀ node ∈ (Walker.mk registry policy limit).reached visitor root state,
      registry.AgreeOn other node) :
    (Walker.mk other policy limit).walk visitor root state =
      (Walker.mk registry policy limit).walk visitor root state := by
  unfold reached at h
  unfold walk
  split
  · rfl
  · rename_i hnull
    rw [if_neg hnull] at h
    exact Machine.run_of_agreeOn h

/-- A lenient walk makes the same calls, reaches the same state and has the same result as a strict walk over
the registry with entries without fields for the unknown tags of the tree; the logs differ in the warnings
only. Registries that list the same fields for the tags of all nodes that a walk reaches give the same
walk. So an entry written for a tag that is not reached changes nothing, nor does an entry written with the
fields that the name has already. -/
theorem walk_entries (registry : Registry) (limit : Option Nat) (visitor : Visitor σ ε)
    (root : Json) (state : σ) :
    (((Walker.mk (registry.withLeaves root.tags) .strict limit).walk visitor root state).calls =
        ((Walker.mk registry .lenient limit).walk visitor root state).calls ∧
      ((Walker.mk (registry.withLeaves root.tags) .strict limit).walk visitor root state).state =
        ((Walker.mk registry .lenient limit).walk visitor root state).state ∧
      ((Walker.mk (registry.withLeaves root.tags) .strict limit).walk visitor root state).result =
        ((Walker.mk registry .lenient limit).walk visitor root state).result ∧
      ((Walker.mk (registry.withLeaves root.tags) .strict limit).walk visitor root state).logs =
        ((Walker.mk registry .lenient limit).walk visitor root state).logs.filter
          fun entry => entry.level ≠ .warn) ∧
    ∀ policy : UnknownTypes,
      (∀ other : Registry,
        (∀ node ∈ (Walker.mk registry policy limit).reached visitor root state,
          ∀ tag, node.tag? = some tag → other.keys? tag = registry.keys? tag) →
        (Walker.mk other policy limit).walk visitor root state =
          (Walker.mk registry policy limit).walk visitor root state) ∧
      (∀ name keys,
        (∀ node ∈ (Walker.mk registry policy limit).reached visitor root state,
          node.tag? ≠ some name) →
        (Walker.mk (registry.extend (.entry name keys)) policy limit).walk visitor root state =
          (Walker.mk registry policy limit).walk visitor root state) ∧
      ∀ name keys, registry.keys? name = some keys →
        (Walker.mk (registry.extend (.entry name keys)) policy limit).walk visitor root state =
          (Walker.mk registry policy limit).walk visitor root state := by
  refine ⟨?_, fun policy => ⟨fun other => walk_of_agreeOn, ?_, ?_⟩⟩
  · rw [walk_withLeaves]
    exact ⟨rfl, rfl, rfl, rfl⟩
  · intro name keys hname
    apply walk_of_agreeOn
    intro node hnode tag htag
    -- the new entry is not that of the tag
    have hne : name ≠ tag := by
      rintro rfl
      exact hname node hnode htag
    rw [Registry.keys?_extend_entry, if_neg hne]
  · intro name keys hkeys
    apply walk_of_agreeOn
    intro node _ tag _
    rw [Registry.keys?_extend_entry]
    split
    · rename_i hname
      rw [← hname, hkeys]
    · rfl

/-- In nested blocks a walk meets no empty statement: it may have no entry or another one, and the entry of
blocks may be written again. -/
theorem walk_entries_nestedBlocks :
    (Walker.mk ⟨.ofList [("Block", ["body"])]⟩ .strict none).walk
        (.observer (ε := Empty) fun _ _ _ n => n + 1) nestedBlocks 0 =
      (Walker.mk freeBlocks.registry .strict none).walk
        (.observer (ε := Empty) fun _ _ _ n => n + 1) nestedBlocks 0 ∧
    (Walker.mk (freeBlocks.registry.extend (.entry "Empty" ["body"])) .strict none).walk
        (.observer (ε := Empty) fun _ _ _ n => n + 1) nestedBlocks 0 =
      (Walker.mk freeBlocks.registry .strict none).walk
        (.observer (ε := Empty) fun _ _ _ n => n + 1) nestedBlocks 0 ∧
    (Walker.mk (freeBlocks.registry.extend (.entry "Block" ["body"])) .strict none).walk
        (.observer (ε := Empty) fun _ _ _ n => n + 1) nestedBlocks 0 =
      (Walker.mk freeBlocks.registry .strict none).walk
        (.observer (ε := Empty) fun _ _ _ n => n + 1) nestedBlocks 0 := by
  have hreached : ((Walker.mk freeBlocks.registry .strict none).reached
      (.observer (ε := Empty) fun _ _ _ n => n + 1) nestedBlocks 0).map Json.tag? =
      [some "Block", some "Block", some "Block"] := by cbv
  have htag : ∀ node ∈ (Walker.mk freeBlocks.registry .strict none).reached
      (.observer (ε := Empty) fun _ _ _ n => n + 1) nestedBlocks 0, node.tag? = some "Block" := by
    intro node hnode
    have hmem := List.mem_map_of_mem (f := Json.tag?) hnode
    rw [hreached] at hmem
    simpa using hmem
  obtain ⟨hsame, hunreached, hrewritten⟩ := (walk_entries freeBlocks.registry none
    (.observer (ε := Empty) fun _ _ _ n => n + 1) nestedBlocks 0).2 .strict
  refine ⟨hsame _ ?_, hunreached "Empty" ["body"] ?_, hrewritten "Block" ["body"] (by decide)⟩
  · intro node hnode tag hnodeTag
    rw [htag node hnode] at hnodeTag
    cases hnodeTag
    decide
  · intro node hnode hempty
    rw [htag node hnode] at hempty
    exact absurd hempty (by decide)

end Walker

end SyntaxWalk
