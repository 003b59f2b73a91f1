import Mathlib
import SyntaxWalk.Proofs.Trace.Sessions
import SyntaxWalk.Trace.Nesting

/-!
# The well-nested traces are the listings of forests

The test for nesting is a stack automaton, and the listings of forests are a grammar. The two agree: the
automaton passes over the listing of a forest whatever is open (`Trace.closes_listingAll`), and a trace that
closes what is open starts with the listing of a forest (`Trace.exists_forest_of_closes`). Where a listing ends
can be told from what follows, since no entry does, so that a trace is the listing of one forest at most
(`Labelled.listingAll_append_inj`).

The trace of a tree is the listing of the tree of its tags (`Walker.events_tour`). The statement about all of
this is `Trace.isWellNested_iff_listing`.
-/

set_option autoImplicit false

namespace SyntaxWalk

namespace Labelled

/-! ## Forests and their listings -/

/-- Induction over a forest: the children of the first root and the trees behind it are smaller forests. -/
@[elab_as_elim]
theorem forest_induction {motive : List Labelled → Prop} (nil : motive [])
    (cons : ∀ nodeType children rest, motive children → motive rest →
      motive (node nodeType children :: rest)) :
    ∀ forest, motive forest
  | [] => nil
  | node nodeType children :: rest =>
    cons nodeType children rest (forest_induction nil cons children) (forest_induction nil cons rest)

/-- The listing of a forest enters its first root, lists the children of the root, leaves it and goes on with
the other trees. -/
theorem listingAll_cons (nodeType : String) (children rest : List Labelled) :
    listingAll (node nodeType children :: rest) =
      ⟨.enter, nodeType⟩ :: (listingAll children ++ ⟨.leave, nodeType⟩ :: listingAll rest) := by
  rw [listingAll, listing, List.cons_append, List.append_assoc]
  rfl

/-- Each node of a forest makes two events, one of which enters it. -/
theorem length_listingAll (forest : List Labelled) :
    (listingAll forest).length = 2 * Trace.nodeCount (listingAll forest) := by
  induction forest using forest_induction with
  | nil => rfl
  | cons nodeType children rest ihchildren ihrest =>
    have hcount : Trace.nodeCount (listingAll (node nodeType children :: rest)) =
        Trace.nodeCount (listingAll children) + Trace.nodeCount (listingAll rest) + 1 := by
      simp [Trace.nodeCount, listingAll_cons]
    rw [hcount, listingAll_cons, List.length_cons, List.length_append, List.length_cons, ihchildren,
      ihrest]
    omega

/-- A trace that does not begin by entering a node. -/
def NoEntry (rest : Trace) : Prop :=
  ∀ event, rest.head? = some event → event.phase = .leave

theorem noEntry_leave (nodeType : String) (rest : Trace) : NoEntry (⟨.leave, nodeType⟩ :: rest) := by
  intro event hevent
  cases hevent
  rfl

/-- A trace that starts with the listing of a forest and does not go on with an entry determines the forest. -/
theorem listingAll_append_inj (first : List Labelled) :
    ∀ (second : List Labelled) (rest rest' : Trace), NoEntry rest → NoEntry rest' →
      listingAll first ++ rest = listingAll second ++ rest' → first = second ∧ rest = rest' := by
  -- the listing of a forest that is not empty begins with an entry
  have hentry : ∀ (nodeType : String) (children others : List Labelled) (rest rest' : Trace),
      NoEntry rest → rest ≠ listingAll (node nodeType children :: others) ++ rest' := by
    intro nodeType children others rest rest' hrest heq
    rw [listingAll_cons] at heq
    cases hrest _ (congrArg List.head? heq)
  induction first using forest_induction with
  | nil =>
    intro second rest rest' hrest hrest' heq
    cases second with
    | nil => exact ⟨rfl, heq⟩
    | cons tree others =>
      rcases tree with ⟨nodeType, children⟩
      exact absurd heq (hentry nodeType children others rest rest' hrest)
  | cons nodeType children others ihchildren ihothers =>
    intro second rest rest' hrest hrest' heq
    cases second with
    | nil => exact absurd heq.symm (hentry nodeType children others rest' rest hrest')
    | cons tree others' =>
      rcases tree with ⟨nodeType', children'⟩
      simp only [listingAll_cons, List.cons_append, List.append_assoc] at heq
      obtain ⟨htype, hbelow⟩ := List.cons.inj heq
      -- the children end where their parent is left
      obtain ⟨rfl, hleft⟩ := ihchildren children' _ _ (noEntry_leave _ _) (noEntry_leave _ _) hbelow
      obtain ⟨rfl, rfl⟩ := ihothers others' rest rest' hrest hrest' (List.cons.inj hleft).2
      cases htype
      exact ⟨rfl, rfl⟩

/-- A trace is the listing of one forest at most. -/
theorem listingAll_inj {first second : List Labelled} (h : listingAll first = listingAll second) :
    first = second := by
  have hend : NoEntry [] := by
    intro event hevent
    cases hevent
  apply (listingAll_append_inj first second [] [] hend hend _).1
  rw [List.append_nil, List.append_nil, h]

end Labelled

namespace Trace

open Labelled

/-! ## The automaton and the grammar -/

/-- The test for nesting passes over the listing of a forest, whatever is open. -/
theorem closes_listingAll (forest : List Labelled) :
    ∀ (opened : List String) (rest : Trace),
      closes opened (listingAll forest ++ rest) = closes opened rest := by
  induction forest using forest_induction with
  | nil =>
    intro opened rest
    rfl
  | cons nodeType children others ihchildren ihothers =>
    intro opened rest
    rw [listingAll_cons, List.cons_append, closes, List.append_assoc, ihchildren, List.cons_append,
      closes, ihothers]
    simp

/-- What comes first in a trace that closes the given types, apart from forests: the innermost of them is
closed, and the rest closes the others. If nothing is open, nothing comes. -/
def ClosesNext : List String → Trace → Prop
  | [], rest => rest = []
  | innermost :: outer, rest => ∃ later, rest = ⟨.leave, innermost⟩ :: later ∧ closes outer later = true

/-- A trace that closes what is open starts with the listing of a forest, behind which the innermost is
closed. -/
theorem exists_forest_of_closes (trace : Trace) :
    ∀ opened, closes opened trace = true →
      ∃ forest rest, trace = listingAll forest ++ rest ∧ ClosesNext opened rest := by
  -- by the length: behind the children of a node the trace goes on with the trees after it
  induction hlength : trace.length using Nat.strongRecOn generalizing trace with
  | ind length ih =>
    subst hlength
    intro opened hcloses
    cases trace with
    | nil =>
      rw [closes, List.isEmpty_iff] at hcloses
      subst hcloses
      exact ⟨[], [], rfl, rfl⟩
    | cons event trace =>
      rcases event with ⟨phase, nodeType⟩
      cases phase with
      | leave =>
        cases opened with
        | nil => cases hcloses
        | cons innermost outer =>
          rw [closes, Bool.and_eq_true, decide_eq_true_eq] at hcloses
          obtain ⟨rfl, houter⟩ := hcloses
          exact ⟨[], _, rfl, trace, rfl, houter⟩
      | enter =>
        rw [closes] at hcloses
        obtain ⟨children, _, rfl, later, rfl, hlater⟩ := ih trace.length (by simp) trace rfl _ hcloses
        obtain ⟨others, rest, rfl, hrest⟩ := ih later.length (by simp; omega) later rfl _ hlater
        refine ⟨node nodeType children :: others, rest, ?_, hrest⟩
        rw [listingAll_cons, List.cons_append, List.append_assoc, List.cons_append]

end Trace

/-! ## The trace of a tree -/

namespace Walker

/-- The tree of the tags below a node. -/
def tagTree (walker : Walker) (node : Json) : Labelled :=
  .node (node.tag?.getD "")
    ((walker.children node).attach.map fun child => walker.tagTree child.val.2)
termination_by sizeOf node
decreasing_by exact Json.sizeOf_children_lt child.property

theorem tagTree_eq (walker : Walker) (node : Json) :
    walker.tagTree node =
      .node (node.tag?.getD "") ((walker.children node).map fun child => walker.tagTree child.2) := by
  have hmap := @List.attach_map_val _ _ (walker.children node) fun child => walker.tagTree child.2
  rw [tagTree, hmap]

/-- The events of joined tours, if those of each tour are a listing. -/
theorem events_flatMap (tour : Edge × Json → List Stop) (tree : Edge × Json → Labelled)
    (children : List (Edge × Json))
    (h : ∀ child ∈ children, (tour child).map (fun stop => stop.call.event) = (tree child).listing) :
    (children.flatMap tour).map (fun stop => stop.call.event) =
      Labelled.listingAll (children.map tree) := by
  induction children with
  | nil => rfl
  | cons child rest ih =>
    obtain ⟨hchild, hrest⟩ := List.forall_mem_cons.1 h
    rw [List.flatMap_cons, List.map_append, hchild, ih hrest, List.map_cons, Labelled.listingAll]

/-- The events of a tour are the listing of the tree of the tags. -/
theorem events_tour (walker : Walker) (node : Json) :
    ∀ (edge : Option Edge) (above : Ancestry) (path : Path),
      (walker.tour node edge above path).map (fun stop => stop.call.event) =
        (walker.tagTree node).listing := by
  induction node using Json.children_induction with
  | step node ih =>
    intro edge above path
    have hbelow := events_flatMap
      (fun child => walker.tour child.2 (some child.1) (above.push node) (path ++ [child.1]))
      (fun child => walker.tagTree child.2) (walker.children node)
      fun child hchild => ih _ child hchild _ _ _
    rw [tour_eq, tagTree_eq, Labelled.listing, List.map_cons, List.map_append, hbelow]
    rfl

end Walker

namespace Trace

/-- The trace of a tree that is not null is the listing of the tree of its tags; that of null is empty. -/
theorem eq_of_ofTree {walker : Walker} {root : Json} {trace : Trace}
    (h : ofTree walker root = .ok trace) :
    trace = if root.isNull then [] else (walker.tagTree root).listing := by
  have hobserver : Tracer.visitor = .observer fun phase _ context tracer =>
      tracer.push ⟨phase, context.nodeType⟩ := rfl
  have hwritten := Tracer.trace_record_empty walker root
  rw [ofTree] at h
  rw [Tracer.record, hobserver] at h hwritten
  rcases walker.walk_observed _ root Tracer.empty with ⟨hresult, -, hcalls⟩ |
    ⟨_, _, _, fault, -, -, -, hresult, -⟩
  · -- all stops of the tour are made
    rw [hresult] at h
    cases h
    rw [hwritten, hcalls, List.map_map, Walker.depthFirst]
    split
    · rfl
    · exact walker.events_tour root none .none []
  · rw [hresult] at h
    cases h

/-- A trace is well nested exactly if it is the listing of a forest. It is the listing of one forest at most,
and then has two events for each node entered. The trace of a tree is the listing of a single tree, or empty if
the root is null. -/
theorem isWellNested_iff_listing (trace : Trace) :
    (trace.isWellNested = true ↔ ∃ forest, Labelled.listingAll forest = trace) ∧
    (∀ first second, Labelled.listingAll first = trace → Labelled.listingAll second = trace →
      first = second) ∧
    (trace.isWellNested = true → trace.length = 2 * trace.nodeCount) ∧
    ∀ walker root, ofTree walker root = .ok trace →
      (root.isNull = true → trace = []) ∧
      (root.isNull = false → ∃ tree, Labelled.listing tree = trace) := by
  have hforest : trace.isWellNested = true → ∃ forest, Labelled.listingAll forest = trace := by
    intro hnested
    obtain ⟨forest, rest, rfl, rfl⟩ := exists_forest_of_closes trace [] hnested
    exact ⟨forest, (List.append_nil _).symm⟩
  refine ⟨⟨hforest, ?_⟩, ?_, ?_, ?_⟩
  · rintro ⟨forest, rfl⟩
    have hcloses := closes_listingAll forest [] []
    rw [List.append_nil] at hcloses
    exact hcloses
  · rintro first second rfl hsecond
    exact Labelled.listingAll_inj hsecond.symm
  · intro hnested
    obtain ⟨forest, rfl⟩ := hforest hnested
    exact Labelled.length_listingAll forest
  · intro walker root htree
    have heq := eq_of_ofTree htree
    constructor
    · intro hnull
      rw [heq, hnull]
      rfl
    · intro hnull
      rw [hnull] at heq
      exact ⟨walker.tagTree root, heq.symm⟩

/-- Three nested blocks make a trace of six events with one label, which is the listing of a single tree. -/
theorem isWellNested_iff_listing_nestedBlocks :
    ofTree Walker.freeBlocks Walker.nestedBlocks =
      .ok (List.replicate 3 ⟨.enter, "Block"⟩ ++ List.replicate 3 ⟨.leave, "Block"⟩) ∧
    (∃ tree, Labelled.listing tree =
      List.replicate 3 ⟨.enter, "Block"⟩ ++ List.replicate 3 ⟨.leave, "Block"⟩) ∧
    (List.replicate 3 ⟨.enter, "Block"⟩ ++ List.replicate 3 ⟨.leave, "Block"⟩ : Trace).length =
      2 * nodeCount (List.replicate 3 ⟨.enter, "Block"⟩ ++ List.replicate 3 ⟨.leave, "Block"⟩) := by
  have htree : ofTree Walker.freeBlocks Walker.nestedBlocks =
      .ok (List.replicate 3 ⟨.enter, "Block"⟩ ++ List.replicate 3 ⟨.leave, "Block"⟩) := by cbv
  obtain ⟨-, -, hlength, hlisting⟩ := isWellNested_iff_listing
    (List.replicate 3 ⟨.enter, "Block"⟩ ++ List.replicate 3 ⟨.leave, "Block"⟩)
  exact ⟨htree, (hlisting _ _ htree).2 rfl, hlength (by decide)⟩

end Trace

end SyntaxWalk
