import Mathlib
import SyntaxWalk.Proofs.Walk.Observer
import SyntaxWalk.Proofs.Walk.Pairing

/-!
# A completed walk visits every reachable node

The place of a call in the tree is read off the calls alone: the edges in the contexts of the calls that
are open lead there from the root (`Run.paths`). A completed walk by a visitor that always goes on enters
each reachable path as often as its multiplicity says and no other path. Where no entry repeats a field,
as in the standard table, every reachable path is entered once and left once, and the entries come in
the order of a walk (`walk_observer_paths`).
-/

set_option autoImplicit false

namespace SyntaxWalk

universe u v

variable {σ : Type u} {ε : Type v}

/-! ## Where a call is made -/

/-- The path from the root to the node of the latest open call. -/
def openPath (opened : List Call) : Path :=
  opened.reverse.filterMap fun call => call.context.edge

/-- The path at which a call is made after the given calls were opened. -/
def Call.path (opened : List Call) (call : Call) : Path :=
  match call.phase with
  | .enter => openPath (call :: opened)
  | .leave => openPath opened

/-- The paths at which the calls of a phase are made, in order, after the given calls were opened. -/
def pathsFrom (phase : Phase) (opened : List Call) : List Call → List Path
  | [] => []
  | call :: rest =>
    if call.phase = phase then call.path opened :: pathsFrom phase (call.turn opened) rest
    else pathsFrom phase (call.turn opened) rest

/-- The paths at which the calls of a phase are made in a walk, in order. -/
def Run.paths (run : Run σ ε) (phase : Phase) : List Path :=
  pathsFrom phase [] run.calls

theorem openPath_cons (call : Call) (opened : List Call) :
    openPath (call :: opened) = openPath opened ++ call.context.edge.toList := by
  rw [openPath, List.reverse_cons, List.filterMap_append]
  cases hedge : call.context.edge with
  | none => simp [openPath, hedge]
  | some edge => simp [openPath, hedge]

/-- The call of a stop that is made at the path of the stop. -/
theorem pathsFrom_stop (opened : List Call) (stop : Stop) (h : stop.call.path opened = stop.path)
    (phase : Phase) (rest : List Call) :
    pathsFrom phase opened (stop.call :: rest) =
      Stop.pathsIn phase [stop] ++ pathsFrom phase (stop.call.turn opened) rest := by
  rw [pathsFrom, h]
  by_cases hphase : stop.call.phase = phase
  · simp [Stop.pathsIn, hphase]
  · simp [Stop.pathsIn, hphase]

/-- The paths of calls that follow others. -/
theorem pathsFrom_append (phase : Phase) (opened first second : List Call) :
    pathsFrom phase opened (first ++ second) =
      pathsFrom phase opened first ++ pathsFrom phase (first.foldl Call.turn opened) second := by
  induction first generalizing opened with
  | nil => rfl
  | cons call rest ih =>
    rw [List.cons_append, pathsFrom, pathsFrom, List.foldl_cons, ih]
    split
    · rfl
    · rfl

/-- Each stop of a phase gives one path, and so does its call. -/
theorem length_pathsFrom (phase : Phase) (opened : List Call) (stops : List Stop) :
    (pathsFrom phase opened (stops.map Stop.call)).length = (Stop.pathsIn phase stops).length := by
  induction stops generalizing opened with
  | nil => rfl
  | cons stop rest ih =>
    rw [List.map_cons, pathsFrom, Stop.pathsIn, List.filter_cons]
    by_cases hphase : stop.call.phase = phase
    · simp [hphase, ih, Stop.pathsIn]
    · simp [hphase, ih, Stop.pathsIn]

/-- The calls of joined tours are made at the paths of their stops, if this holds of each tour. -/
theorem pathsFrom_flatMap {α : Type} (phase : Phase) (opened : List Call) (f : α → List Stop) :
    ∀ list : List α,
      (∀ a ∈ list, ∀ rest, pathsFrom phase opened ((f a).map Stop.call ++ rest) =
        Stop.pathsIn phase (f a) ++ pathsFrom phase opened rest) →
      ∀ rest, pathsFrom phase opened ((list.flatMap f).map Stop.call ++ rest) =
        Stop.pathsIn phase (list.flatMap f) ++ pathsFrom phase opened rest := by
  intro list
  induction list with
  | nil =>
    intro _ rest
    rfl
  | cons a list ih =>
    intro h rest
    have hrest := ih (fun b hb => h b (List.mem_cons_of_mem _ hb)) rest
    rw [List.flatMap_cons, List.map_append, List.append_assoc, h a List.mem_cons_self, hrest,
      Stop.pathsIn_append, List.append_assoc]

namespace Walker

/-- The calls of a tour are made at the paths of its stops, and close what they open. -/
theorem pathsFrom_tour (walker : Walker) (phase : Phase) (node : Json) :
    ∀ (edge : Option Edge) (above : Ancestry) (path : Path) (opened : List Call),
      openPath opened ++ edge.toList = path →
      ∀ rest, pathsFrom phase opened ((walker.tour node edge above path).map Stop.call ++ rest) =
        Stop.pathsIn phase (walker.tour node edge above path) ++ pathsFrom phase opened rest := by
  induction node using Json.children_induction with
  | step node ih =>
    intro edge above path opened hpath rest
    -- while the node is open, the open path is its path
    have hopen : openPath ((Stop.atNode path above edge node .enter).call :: opened) = path := by
      rw [openPath_cons]
      exact hpath
    have henter := pathsFrom_stop opened (.atNode path above edge node .enter) hopen phase
    have hbelow := pathsFrom_flatMap phase ((Stop.atNode path above edge node .enter).call :: opened)
      (fun child => walker.tour child.2 (some child.1) (above.push node) (path ++ [child.1]))
      (walker.children node) (by
        intro child hchild rest
        have hpath' : openPath ((Stop.atNode path above edge node .enter).call :: opened) ++
            (some child.1).toList = path ++ [child.1] := by
          rw [hopen]
          rfl
        exact ih _ child hchild _ _ _ _ hpath' rest)
    have hleave := pathsFrom_stop ((Stop.atNode path above edge node .enter).call :: opened)
      (.atNode path above edge node .leave) hopen phase
    -- the entry, the children and the end of the node are taken off one after the other
    rw [tour_eq, ← List.singleton_append, List.map_append, List.map_append, Stop.pathsIn_append,
      Stop.pathsIn_append, List.append_assoc, List.append_assoc, List.append_assoc,
      List.append_assoc]
    refine (henter _).trans (congrArg _ ((hbelow _).trans (congrArg _ ?_)))
    exact hleave rest

theorem pathsFrom_depthFirst (walker : Walker) (phase : Phase) (root : Json) :
    pathsFrom phase [] ((walker.depthFirst root).map Stop.call) =
      Stop.pathsIn phase (walker.depthFirst root) := by
  unfold depthFirst
  split
  · rfl
  · have htour := walker.pathsFrom_tour phase root none .none [] [] rfl []
    rwa [List.append_nil, pathsFrom, List.append_nil] at htour

/-- The call of an entry in the tour of a tree is made at the path of the stop, as the calls before it tell. -/
theorem path_of_depthFirst {walker : Walker} {root : Json} {before after : List Stop} {stop : Stop}
    (hstops : walker.depthFirst root = before ++ stop :: after) (hphase : stop.call.phase = .enter) :
    stop.call.path (openCalls (before.map Stop.call)) = stop.path := by
  have hpaths := walker.pathsFrom_depthFirst .enter root
  rw [hstops, List.map_append, pathsFrom_append, Stop.pathsIn_append, List.map_cons, pathsFrom,
    if_pos hphase] at hpaths
  -- both lists have one path for each entry before the stop
  have hrest := (List.append_inj hpaths (length_pathsFrom .enter [] before)).2
  rw [Stop.pathsIn, List.filter_cons_of_pos (by simpa using hphase)] at hrest
  exact (List.cons.inj hrest).1

/-! ## Entries without repetition -/

/-- If no entry along a path repeats a field, the path has multiplicity one. -/
theorem multiplicity_eq_one {walker : Walker} {path : Path} {root node : Json}
    (h : walker.Reachable root path node)
    (hnodup : ∀ path node, walker.Reachable root path node → (walker.keysOf node).Nodup) :
    walker.multiplicity root path = 1 := by
  induction path generalizing root with
  | nil => rfl
  | cons edge path ih =>
    obtain ⟨child, hfield, hfollow, hbelow⟩ := h.uncons
    have hroot := hnodup [] root (.root h.isNull_root)
    have hchild := ih hbelow fun path' node' h' => hnodup _ node' (h'.prepend hfield hfollow)
    rw [multiplicity, hfollow, List.count_eq_one_of_mem hroot hfield]
    dsimp only
    rw [hchild]

end Walker

theorem NodeType.nodup_childKeys (t : NodeType) : t.childKeys.Nodup := by
  cases t <;> decide

theorem Registry.nodup_keys_standard {name : String} {keys : List String}
    (h : Registry.standard.keys? name = some keys) : keys.Nodup := by
  obtain ⟨entry, hentry, rfl⟩ := Option.map_eq_some_iff.1 h
  obtain ⟨t, -, rfl⟩ := Option.map_eq_some_iff.1 hentry
  exact t.nodup_childKeys

/-! ## The paths of a completed walk -/

namespace Walker

/-- A completed walk by an observer makes its calls at the paths of the tour. -/
theorem paths_of_completed {walker : Walker} {note : Phase → Json → Context → σ → σ} {root : Json}
    {state : σ} (h : (walker.walk (.observer (ε := ε) note) root state).result = .ok .completed)
    (phase : Phase) :
    (walker.walk (.observer (ε := ε) note) root state).paths phase =
      Stop.pathsIn phase (walker.depthFirst root) := by
  rcases walker.walk_observed (ε := ε) note root state with ⟨-, -, hcalls⟩ |
    ⟨before, stop, after, fault, -, -, -, hresult, -⟩
  · rw [Run.paths, hcalls, pathsFrom_depthFirst]
  · rw [hresult] at h
    cases h

/-- The tour of a tree enters and leaves a path as often as its multiplicity says if it is reachable, and
never if it is not. -/
theorem count_pathsIn_depthFirst (walker : Walker) (root : Json) (phase : Phase) (path : Path) :
    (∀ node, walker.Reachable root path node →
      (Stop.pathsIn phase (walker.depthFirst root)).count path =
        walker.multiplicity root path) ∧
    ((∀ node, ¬ walker.Reachable root path node) →
      (Stop.pathsIn phase (walker.depthFirst root)).count path = 0) := by
  constructor
  · intro node hnode
    have hroot := hnode.isNull_root
    -- both phases stop at the same paths, and the entries are those of the listing
    have hperm : (Stop.pathsIn phase (walker.depthFirst root)).Perm
        (Stop.pathsIn .enter (walker.depthFirst root)) := by
      cases phase with
      | enter => exact List.Perm.refl _
      | leave =>
        rw [depthFirst, hroot]
        exact walker.perm_pathsIn_tour root none .none []
    rw [hperm.count_eq, pathsIn_enter_depthFirst hroot, count_preorder]
  · intro hnone
    rw [List.count_eq_zero]
    intro hmem
    obtain ⟨stop, hstop, -, rfl⟩ := Stop.mem_pathsIn.1 hmem
    exact hnone _ (reachable_of_mem_depthFirst hstop)

/-- A completed walk by a visitor that always goes on enters every reachable path as often as the product
of the numbers of times that its fields are listed, and no other path. If no entry that it consults
repeats a field, every reachable path is entered once and left once, and the entries come in the order of a
walk, which is strict. The standard table has no such repetition. -/
theorem walk_observer_paths (walker : Walker) (note : Phase → Json → Context → σ → σ)
    (root : Json) (state : σ)
    (h : (walker.walk (.observer (ε := ε) note) root state).result = .ok .completed) :
    (∀ path node, walker.Reachable root path node →
      ((walker.walk (.observer (ε := ε) note) root state).paths .enter).count path =
        walker.multiplicity root path) ∧
    (∀ path, (∀ node, ¬ walker.Reachable root path node) →
      ((walker.walk (.observer (ε := ε) note) root state).paths .enter).count path = 0) ∧
    ((∀ path node, walker.Reachable root path node → (walker.keysOf node).Nodup) →
      (∀ path node, walker.Reachable root path node →
        ((walker.walk (.observer (ε := ε) note) root state).paths .enter).count path = 1 ∧
        ((walker.walk (.observer (ε := ε) note) root state).paths .leave).count path = 1) ∧
      ((walker.walk (.observer (ε := ε) note) root state).paths .enter).Pairwise
        (walker.Precedes root) ∧
      ∀ p q, walker.Precedes root p q → ¬ walker.Precedes root q p) ∧
    (∀ name keys, Registry.standard.keys? name = some keys → keys.Nodup) := by
  simp only [paths_of_completed h]
  refine ⟨fun path => (walker.count_pathsIn_depthFirst root .enter path).1,
    fun path => (walker.count_pathsIn_depthFirst root .enter path).2, ?_,
    fun name keys => Registry.nodup_keys_standard⟩
  intro hnodup
  have hone : ∀ phase path node, walker.Reachable root path node →
      (Stop.pathsIn phase (walker.depthFirst root)).count path = 1 := by
    intro phase path node hnode
    rw [(walker.count_pathsIn_depthFirst root phase path).1 node hnode,
      multiplicity_eq_one hnode hnodup]
  refine ⟨fun path node hnode => ⟨hone _ path node hnode, hone _ path node hnode⟩, ?_,
    fun p q => Precedes.asymm⟩
  -- each path is entered once, so that first occurrences are all occurrences
  have hdistinct : (Stop.pathsIn .enter (walker.depthFirst root)).Nodup := by
    rw [List.nodup_iff_count_eq_one]
    intro path hmem
    obtain ⟨stop, hstop, -, rfl⟩ := Stop.mem_pathsIn.1 hmem
    exact hone _ _ _ (reachable_of_mem_depthFirst hstop)
  cases hroot : root.isNull with
  | true =>
    rw [depthFirst, hroot]
    exact List.Pairwise.nil
  | false =>
    rw [pathsIn_enter_depthFirst hroot] at hdistinct ⊢
    exact (walker.inOrder_preorder root).pairwise hdistinct

/-- A walker whose registry lists a field twice. -/
def listingTwice : Walker :=
  ⟨⟨.ofList [("Leaf", []), ("Pair", ["items", "last", "items"])]⟩, .strict, some 1⟩

/-- A tree with a hole before the only item of a sequence. -/
def holed : Json :=
  .object [("items", .array [.null, .object [("type", .string "Leaf")]]),
    ("last", .object [("type", .string "Leaf")]), ("type", .string "Pair")]

/-- Below a field that is listed twice, an item is entered twice, at its own index. -/
theorem walk_observer_paths_holed :
    (listingTwice.walk (.observer (ε := Empty) fun _ _ _ n => n + 1) holed 0).result =
      .ok .completed ∧
    ((listingTwice.walk (.observer (ε := Empty) fun _ _ _ n => n + 1) holed 0).paths
      .enter).count [⟨"items", some 1⟩] = 2 := by
  have hresult : (listingTwice.walk (.observer (ε := Empty) fun _ _ _ n => n + 1) holed 0).result =
      .ok .completed := by cbv
  have hreach : listingTwice.Reachable holed [⟨"items", some 1⟩]
      (.object [("type", .string "Leaf")]) := .child (.root rfl) (by decide) rfl
  refine ⟨hresult, ?_⟩
  rw [(walk_observer_paths listingTwice _ holed 0 hresult).1 _ _ hreach]
  decide

end Walker

end SyntaxWalk
