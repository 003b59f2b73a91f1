import Mathlib
import SyntaxWalk.Proofs.Walk.Address
import SyntaxWalk.Proofs.Walk.PathText

/-!
# The path of a fault leads to the node at fault

A walk that fails with a fault reports a path as text. If the fields listed by the registry have plain
names, the text is read back as a path, and following this path from the root arrives at the node at
fault (`walk_fault_path`): a node without a tag, a node whose tag has no entry, or a node that lies exactly
one edge below the limit.

The machine finds the fault at the frame on top of its stack. The stack is anchored, so that the edges
of the open nodes and the edge of the frame lead there (`reports_of_result`), whatever the visitor did
before.
-/

set_option autoImplicit false

namespace SyntaxWalk

universe u v

variable {σ : Type u} {ε : Type v}

/-- The node to which a path leads. -/
def Json.locate (root : Json) (path : Path) : Option Json :=
  path.foldlM Json.follow root

namespace Walker

/-! ## Reachable paths and their text -/

theorem Reachable.locate_eq {walker : Walker} {root node : Json} {path : Path}
    (h : walker.Reachable root path node) : root.locate path = some node := by
  induction h with
  | root hroot => rfl
  | child hnode hfield hfollow ih =>
    rw [Json.locate] at ih ⊢
    rw [List.foldlM_append, ih]
    simp [hfollow]

/-- What holds of the fields that the registry lists holds of the fields along a reachable path. -/
theorem Reachable.forall_field {walker : Walker} {root node : Json} {path : Path}
    (h : walker.Reachable root path node) {holds : String → Prop}
    (hlisted : ∀ name keys, walker.registry.keys? name = some keys → ∀ key ∈ keys, holds key) :
    ∀ edge ∈ path, holds edge.field := by
  induction h with
  | root hroot => exact nofun
  | child hnode hfield hfollow ih =>
    intro e he
    rcases List.mem_append.1 he with hbefore | hlast
    · exact ih e hbefore
    · rw [List.mem_singleton.1 hlast]
      obtain ⟨tag, keys, -, hkeys, hkey⟩ := lists_iff.2 hfield
      exact hlisted tag keys hkeys _ hkey

theorem Reachable.plainName {walker : Walker} {root node : Json} {path : Path}
    (h : walker.Reachable root path node) (hplain : walker.registry.HasPlainNames) :
    ∀ edge ∈ path, PlainName edge.field :=
  h.forall_field hplain

/-- What an edge leads to is an object, so that only the root may be something else. -/
theorem Reachable.isNode {walker : Walker} {root node : Json} {path : Path}
    (h : walker.Reachable root path node) : node.isNode = true ∨ path = [] := by
  cases h with
  | root hroot => exact Or.inr rfl
  | child hnode hfield hfollow => exact Or.inl (Json.isNode_of_follow hfollow)

/-! ## Faults of a walk -/

theorem HasFault.path_eq {walker : Walker} {path : Path} {node : Json} {fault : Fault}
    (h : walker.HasFault path node fault) : fault.path = path := by
  cases h with
  | malformed htag => rfl
  | tooDeep hlimit hdepth => rfl
  | unknownType htag hkeys hpolicy => rfl

/-- The open nodes lie within the limit, so that what is next lies at most one edge below it. -/
theorem Anchored.length_le {walker : Walker} {root : Json} {stack : List Frame} {above : List Json}
    {steps : List (Option Edge)} (h : walker.Anchored root stack above steps) {limit : Nat}
    (hlimit : walker.maxDepth = some limit) : above.length ≤ limit + 1 := by
  induction h with
  | empty => exact Nat.zero_le _
  | enter hnode hrest ih => exact ih
  | @leave node nodeType edge rest above steps hnode htag hdepth hrest ih =>
    rw [List.length_cons]
    apply Nat.succ_le_succ
    apply Nat.le_of_not_lt
    intro hlt
    rw [exceeded?_eq_some_iff.2 ⟨hlimit, hlt⟩] at hdepth
    cases hdepth

/-- A walk that fails with a fault has found it at a reachable node, at most one edge below the limit. -/
theorem reports_of_result {walker : Walker} {visitor : Visitor σ ε} {root : Json} {state : σ}
    {fault : Fault} (h : (walker.walk visitor root state).result = .error (.fault fault)) :
    ∃ node, walker.Reachable root fault.path node ∧ walker.Reports fault.path node fault ∧
      ∀ limit, walker.maxDepth = some limit → fault.path.length ≤ limit + 1 := by
  unfold walk at h
  split at h
  · cases h
  · rename_i hnull
    refine @Machine.run_of_invariant _ _ walker visitor (Machine.Anchored walker root)
      (fun run => run.result = .error (.fault fault) → _) (fun _ _ => Machine.anchored_step) ?_ _
      (Machine.anchored_start walker root state) h
    intro machine run hanchored hhalts hresult
    cases hhalts with
    | completed hstack => cases hresult
    | @fault node edge rest fault hstack hfault =>
      cases hresult
      have hnode := (hanchored.top_enter hstack).1
      -- the depth that was examined is the number of edges of the path
      have hlength := hnode.length_path
      rw [machine.ancestors.depth_eq, ← hlength] at hfault
      have hreports := reports_of_examine hfault
      rw [hreports.1.path_eq, hlength]
      exact ⟨node, hnode.reachable (Bool.eq_false_iff.2 hnull), hreports,
        fun limit => hanchored.length_le⟩
    | enterFailed hstack hfound hanswer => cases hresult
    | enterStopped hstack hfound hanswer => cases hresult
    | leaveFailed hstack hanswer => cases hresult
    | leaveStopped hstack hanswer => cases hresult

/-- What a fault says of the node at the end of a path. -/
def Offends (walker : Walker) (path : Path) (node : Json) : Fault → Prop
  | .malformed _ => node.tag? = none ∧ (node.isNode = true ∨ path = [])
  | .unknownType nodeType _ =>
    node.tag? = some nodeType ∧ walker.registry.contains nodeType = false
  | .tooDeep limit _ =>
    node.tag?.isSome = true ∧ walker.maxDepth = some limit ∧ path.length = limit + 1

/-- The fault that is reported at a reachable node is true of it. -/
theorem Reports.offends {walker : Walker} {root node : Json} {fault : Fault}
    (hreports : walker.Reports fault.path node fault)
    (hnode : walker.Reachable root fault.path node)
    (hdepth : ∀ limit, walker.maxDepth = some limit → fault.path.length ≤ limit + 1) :
    walker.Offends fault.path node fault := by
  obtain ⟨hfault, hfirst⟩ := hreports
  -- a case of `HasFault` fixes the fault by the path, so that the path must be a variable
  generalize hpath : fault.path = path at hfault hfirst hnode hdepth
  cases hfault with
  | malformed htag => exact ⟨htag, hnode.isNode⟩
  | @tooDeep limit hlimit hlt =>
    refine ⟨?_, hlimit, Nat.le_antisymm (hdepth limit hlimit) hlt⟩
    -- a node without a tag is reported as malformed
    cases htag : node.tag? with
    | none => exact absurd (hfirst _ (.malformed htag)) (Nat.not_succ_le_zero 0)
    | some tag => rfl
  | unknownType htag hkeys hpolicy => exact ⟨htag, Registry.keys?_eq_none_iff.1 hkeys⟩

/-- If the registry lists plain names only, the text of the path of a fault is read back as a path, which
leads from the root to the node at fault; the text `<root>` is that of the root. No two paths with plain
names have one text. The standard registry lists plain names only. -/
theorem walk_fault_path (walker : Walker) (hplain : walker.registry.HasPlainNames)
    (visitor : Visitor σ ε) (root : Json) (state : σ) :
    (∀ fault, (walker.walk visitor root state).result = .error (.fault fault) →
      ∃ path node, Path.read? fault.path.render = some path ∧ root.locate path = some node ∧
        walker.Offends path node fault ∧
        (fault.path.render = "<root>" → path = [] ∧ node = root)) ∧
    (∀ p q : Path, (∀ edge ∈ p, PlainName edge.field) → (∀ edge ∈ q, PlainName edge.field) →
      p.render = q.render → p = q) ∧
    Registry.standard.HasPlainNames := by
  refine ⟨?_, fun p q => Path.render_inj, Registry.hasPlainNames_of_extensions nofun⟩
  intro fault hresult
  obtain ⟨node, hnode, hreports, hdepth⟩ := reports_of_result hresult
  have hnames := hnode.plainName hplain
  refine ⟨fault.path, node, Path.read?_render hnames, hnode.locate_eq,
    hreports.offends hnode hdepth, ?_⟩
  intro hroot
  have hnil : fault.path = [] := Path.render_inj hnames nofun hroot
  rw [hnil] at hnode
  exact ⟨hnil, hnode.eq_of_nil⟩

/-- A block in a block in a block, the innermost behind a hole. -/
def nestedBlocks : Json :=
  .object [("body", .array [.object [("body", .array [.null, .object [("type", .string "Block")]]),
    ("type", .string "Block")]]), ("type", .string "Block")]

/-- Two edges down, a walk with the limit one reports a path of two segments. -/
theorem walk_fault_path_nestedBlocks :
    (blocks.walk (.observer (ε := Empty) fun _ _ _ n => n + 1) nestedBlocks 0).result =
      .error (.fault (.tooDeep 1 [⟨"body", some 0⟩, ⟨"body", some 1⟩])) ∧
    ∃ path node, Path.read? "body[0].body[1]" = some path ∧
      nestedBlocks.locate path = some node ∧ path.length = 2 := by
  have hresult : (blocks.walk (.observer (ε := Empty) fun _ _ _ n => n + 1) nestedBlocks 0).result =
      .error (.fault (.tooDeep 1 [⟨"body", some 0⟩, ⟨"body", some 1⟩])) := by cbv
  have hplain : blocks.registry.HasPlainNames :=
    Registry.hasPlainNames_of_extensions (by decide)
  obtain ⟨path, node, hread, hlocate, hoffends, -⟩ :=
    (walk_fault_path blocks hplain _ nestedBlocks 0).1 _ hresult
  exact ⟨hresult, path, node, hread, hlocate, hoffends.2.2⟩

end Walker

end SyntaxWalk
