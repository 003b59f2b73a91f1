import Mathlib.Data.List.Count
import Mathlib.Data.List.Nodup
import SyntaxWalk.Proofs.Walk.Reachable

/-!
# The paths of a tree in the order of a walk

`Walker.preorder` lists the paths below a node in the order in which a walk comes to them. It holds exactly
the reachable paths (`mem_preorder_iff`), each as often as the fields along it are listed
(`count_preorder`), and their first occurrences come in the order `Walker.Precedes`
(`inOrder_preorder`).

A registry may list a field twice for one type, and then everything below that field occurs again. The
order is therefore stated of first occurrences (`InOrder`). It is built up in blocks: the fields of a
node, the children in a field, and the paths below a child.
-/

set_option autoImplicit false

namespace SyntaxWalk

universe u v

/-! ## First occurrences in order -/

/-- The first occurrences of the members of a list come in the order of a relation: what stands after a
member has stood before it already, or is this member again, or is greater. -/
def InOrder {α : Type u} (r : α → α → Prop) (list : List α) : Prop :=
  ∀ before x after, list = before ++ x :: after → ∀ y ∈ after, y ∈ before ∨ y = x ∨ r x y

namespace InOrder

variable {α : Type u} {β : Type v} {r : α → α → Prop} {s : β → β → Prop} {list : List α}

theorem of_pairwise (h : list.Pairwise r) : InOrder r list := by
  intro before x after heq y hy
  subst heq
  have hafter := (List.pairwise_append.1 h).2.1
  exact Or.inr (Or.inr ((List.pairwise_cons.1 hafter).1 y hy))

/-- Where nothing is repeated, the whole list is increasing. -/
theorem pairwise (h : InOrder r list) (hnodup : list.Nodup) : list.Pairwise r := by
  induction list with
  | nil => exact List.Pairwise.nil
  | cons x rest ih =>
    obtain ⟨hx, hrest⟩ := List.nodup_cons.1 hnodup
    refine List.pairwise_cons.2 ⟨fun y hy => ?_, ih ?_ hrest⟩
    · rcases h [] x rest rfl y hy with hbefore | rfl | hr
      · cases hbefore
      · exact absurd hy hx
      · exact hr
    · intro before z after heq y hy
      rcases h (x :: before) z after (by rw [heq]; rfl) y hy with hbefore | hcase
      · rcases List.mem_cons.1 hbefore with rfl | hbefore
        · exact absurd (heq ▸ List.mem_append_right _ (List.mem_cons_of_mem _ hy)) hx
        · exact Or.inl hbefore
      · exact Or.inr hcase

theorem imp {t : α → α → Prop} (h : InOrder r list) (himp : ∀ x y, r x y → t x y) :
    InOrder t list := by
  intro before x after heq y hy
  exact (h before x after heq y hy).imp id (Or.imp id (himp x y))

theorem cons {x : α} (h : InOrder r list) (hx : ∀ y ∈ list, r x y) : InOrder r (x :: list) := by
  intro before z after heq y hy
  cases before with
  | nil =>
    cases heq
    exact Or.inr (Or.inr (hx y hy))
  | cons first before =>
    obtain ⟨rfl, rfl⟩ := List.cons.inj heq
    exact (h before z after rfl y hy).imp (List.mem_cons_of_mem _) id

theorem map {f : α → β} (h : InOrder (fun x y => s (f x) (f y)) list) :
    InOrder s (list.map f) := by
  intro before z after heq y hy
  obtain ⟨front, back, rfl, rfl, hback⟩ := List.map_eq_append_iff.1 heq
  obtain ⟨x, rest, rfl, rfl, rfl⟩ := List.map_eq_cons_iff.1 hback
  obtain ⟨w, hw, rfl⟩ := List.mem_map.1 hy
  rcases h front x rest rfl w hw with hfront | rfl | hs
  · exact Or.inl (List.mem_map_of_mem hfront)
  · exact Or.inr (Or.inl rfl)
  · exact Or.inr (Or.inr hs)

/-- A member of joined blocks splits one of the blocks. -/
theorem split_flatMap {f : α → List β} {before after : List β} {y : β}
    (h : list.flatMap f = before ++ y :: after) :
    ∃ front x back left right, list = front ++ x :: back ∧ f x = left ++ y :: right ∧
      before = front.flatMap f ++ left ∧ after = right ++ back.flatMap f := by
  induction list generalizing before with
  | nil =>
    rw [List.flatMap_nil] at h
    simp at h
  | cons x rest ih =>
    rw [List.flatMap_cons] at h
    rcases List.append_eq_append_iff.1 h with ⟨more, hbefore, hrest⟩ | ⟨more, hblock, hafter⟩
    · -- the member lies behind the first block
      obtain ⟨front, z, back, left, right, rfl, hz, rfl, rfl⟩ := ih hrest
      exact ⟨x :: front, z, back, left, right, rfl, hz, by rw [hbefore, List.flatMap_cons,
        List.append_assoc], rfl⟩
    · cases more with
      | nil =>
        -- the first block ends right before the member
        obtain ⟨front, z, back, left, right, rfl, hz, hleft, rfl⟩ := @ih [] hafter.symm
        refine ⟨x :: front, z, back, left, right, rfl, hz, ?_, rfl⟩
        rw [List.flatMap_cons, List.append_assoc, ← hleft, hblock, List.append_nil,
          List.append_nil]
      | cons first more =>
        obtain ⟨rfl, rfl⟩ := List.cons.inj hafter
        exact ⟨[], x, rest, before, more, rfl, hblock, rfl, rfl⟩

/-- Blocks in order, one after the other in order, make a list in order. -/
theorem flatMap {f : α → List β} (h : InOrder r list) (hblock : ∀ x ∈ list, InOrder s (f x))
    (hacross : ∀ x ∈ list, ∀ y ∈ list, r x y → ∀ a ∈ f x, ∀ b ∈ f y, s a b) :
    InOrder s (list.flatMap f) := by
  intro before a after heq b hb
  obtain ⟨front, x, back, left, right, rfl, hx, rfl, rfl⟩ := split_flatMap heq
  have hxmem : x ∈ front ++ x :: back := List.mem_append_right _ List.mem_cons_self
  -- the members of the block of `a`, whether they stand before `a` or after it
  have hown : b ∈ f x → b ∈ front.flatMap f ++ left ∨ b = a ∨ s a b := by
    intro hbx
    rw [hx] at hbx
    rcases List.mem_append.1 hbx with hleft | hright
    · exact Or.inl (List.mem_append_right _ hleft)
    · rcases List.mem_cons.1 hright with rfl | hright
      · exact Or.inr (Or.inl rfl)
      · exact (hblock x hxmem left a right hx b hright).imp (List.mem_append_right _) id
  rcases List.mem_append.1 hb with hright | hback
  · exact hown (hx ▸ List.mem_append_right _ (List.mem_cons_of_mem _ hright))
  · obtain ⟨y, hy, hby⟩ := List.mem_flatMap.1 hback
    have hymem : y ∈ front ++ x :: back :=
      List.mem_append_right _ (List.mem_cons_of_mem _ hy)
    rcases h front x back rfl y hy with hfront | rfl | hr
    · exact Or.inl (List.mem_append_left _ (List.mem_flatMap.2 ⟨y, hfront, hby⟩))
    · exact hown hby
    · exact Or.inr (Or.inr (hacross x hxmem y hymem hr a
        (hx ▸ List.mem_append_right _ List.mem_cons_self) b hby))

/-- The members of a list come in the order of their first positions. -/
theorem idxOf (list : List String) :
    InOrder (fun x y => list.idxOf x < list.idxOf y) list := by
  intro before x after heq y hy
  by_cases hybefore : y ∈ before
  · exact Or.inl hybefore
  · by_cases hyx : y = x
    · exact Or.inr (Or.inl hyx)
    · refine Or.inr (Or.inr ?_)
      -- the first `x` stands here or earlier, the first `y` later
      have hle : list.idxOf x ≤ before.length := by
        rw [heq, List.idxOf_append]
        split
        · exact Nat.le_of_lt (List.idxOf_lt_length_of_mem ‹_›)
        · simp
      have hlt : before.length < list.idxOf y := by
        rw [heq, List.idxOf_append, if_neg hybefore, List.idxOf_cons_ne _ (Ne.symm hyx)]
        omega
      omega

end InOrder

/-! ## The children of a node -/

/-- An edge comes before another by the position of its field or, in one field, by its index. -/
def Edge.Before (keys : List String) (e f : Edge) : Prop :=
  keys.idxOf e.field < keys.idxOf f.field ∨
    ∃ name i j, e = ⟨name, some i⟩ ∧ f = ⟨name, some j⟩ ∧ i < j

/-- The objects of a sequence come by increasing index. -/
theorem Field.pairwise_nodesFrom (name : String) (start : Nat) (items : List Json) :
    (nodesFrom name start items).Pairwise fun a b =>
      ∃ i j, a.1 = ⟨name, some i⟩ ∧ b.1 = ⟨name, some j⟩ ∧ i < j := by
  induction items generalizing start with
  | nil => exact List.Pairwise.nil
  | cons item rest ih =>
    rw [nodesFrom]
    split
    · refine List.pairwise_cons.2 ⟨fun b hb => ?_, ih (start + 1)⟩
      obtain ⟨i, hedge, -⟩ := mem_nodesFrom_iff.1 hb
      exact ⟨start, start + 1 + i, rfl, hedge, by omega⟩
    · exact ih (start + 1)

theorem Json.pairwise_field_children (node : Json) (key : String) :
    ((node.field key).children key).Pairwise fun a b =>
      ∃ i j, a.1 = ⟨key, some i⟩ ∧ b.1 = ⟨key, some j⟩ ∧ i < j := by
  cases node.field key with
  | absent => exact List.Pairwise.nil
  | scalar => exact List.Pairwise.nil
  | node child => exact List.pairwise_singleton _ _
  | sequence items => exact Field.pairwise_nodesFrom key 0 items

/-- The children of a node come by the positions of their fields and then by their indices. -/
theorem Json.inOrder_children (node : Json) (keys : List String) :
    InOrder (fun a b => a.1.Before keys b.1) (node.children keys) := by
  apply (InOrder.idxOf keys).flatMap
  · -- in one field the indices decide
    intro key _
    apply (InOrder.of_pairwise (node.pairwise_field_children key)).imp
    rintro a b ⟨i, j, ha, hb, hij⟩
    exact Or.inr ⟨key, i, j, ha, hb, hij⟩
  · -- between two fields their positions decide
    intro x _ y _ hxy a ha b hb
    rw [Edge.Before, (mem_field_children_iff.1 ha).1, (mem_field_children_iff.1 hb).1]
    exact Or.inl hxy

/-- An edge that leads somewhere is found once in its field, and in no other. -/
theorem Json.countP_field_children {node child : Json} {edge : Edge}
    (h : node.follow edge = some child) (key : String) :
    ((node.field key).children key).countP (fun c => c.1 = edge) =
      if key = edge.field then 1 else 0 := by
  by_cases hkey : key = edge.field
  · rw [if_pos hkey]
    have hmem : edge ∈ ((node.field key).children key).map Prod.fst :=
      List.mem_map.2 ⟨(edge, child), mem_field_children_iff.2 ⟨hkey.symm, h⟩, rfl⟩
    have hnodup : (((node.field key).children key).map Prod.fst).Nodup := by
      refine List.pairwise_map.2 ((node.pairwise_field_children key).imp ?_)
      rintro a b ⟨i, j, ha, hb, hij⟩ heq
      rw [ha, hb, Edge.mk.injEq, Option.some.injEq] at heq
      omega
    have hcount := List.count_eq_one_of_mem hnodup hmem
    rw [List.count, List.countP_map] at hcount
    rw [← hcount]
    apply List.countP_congr
    intro c _
    simp
  · rw [if_neg hkey, List.countP_eq_zero]
    rintro ⟨e, c⟩ hmem heq
    have hedge : e = edge := of_decide_eq_true heq
    have hfield := (mem_field_children_iff.1 hmem).1
    rw [hedge] at hfield
    exact hkey hfield.symm

/-- An edge that leads somewhere is found as often as its field is listed. -/
theorem Json.countP_children {node child : Json} {edge : Edge}
    (h : node.follow edge = some child) (keys : List String) :
    (node.children keys).countP (fun c => c.1 = edge) = keys.count edge.field := by
  induction keys with
  | nil => rfl
  | cons key rest ih =>
    have hchildren : node.children (key :: rest) =
        (node.field key).children key ++ node.children rest := rfl
    rw [hchildren, List.countP_append, ih, countP_field_children h, List.count_cons]
    simp [Nat.add_comm]

/-- What is found equally often in the blocks of one kind and in no others, is found as often in all of
them together as there are blocks of this kind. -/
theorem count_flatMap_eq_countP_mul {α : Type u} {β : Type v} [BEq β] {f : α → List β} {b : β}
    (p : α → Bool) (n : Nat) {list : List α}
    (h : ∀ a ∈ list, (f a).count b = if p a then n else 0) :
    (list.flatMap f).count b = list.countP p * n := by
  induction list with
  | nil => simp
  | cons a rest ih =>
    have hrest := ih fun c hc => h c (List.mem_cons_of_mem _ hc)
    rw [List.flatMap_cons, List.count_append, h a List.mem_cons_self, hrest, List.countP_cons,
      Nat.add_mul]
    split
    · omega
    · omega

namespace Walker

/-! ## The listing -/

/-- The paths below a node in the order of a walk, the empty path first. -/
def preorder (walker : Walker) (node : Json) : List Path :=
  [] :: (walker.children node).attach.flatMap fun child =>
    (walker.preorder child.val.2).map (child.val.1 :: ·)
termination_by sizeOf node
decreasing_by exact Json.sizeOf_children_lt child.property

theorem preorder_eq (walker : Walker) (node : Json) :
    walker.preorder node =
      [] :: (walker.children node).flatMap fun child =>
        (walker.preorder child.2).map (child.1 :: ·) := by
  have hmap := @List.attach_map_val _ _ (walker.children node) fun child =>
    (walker.preorder child.2).map (child.1 :: ·)
  rw [preorder, List.flatMap_def, hmap, ← List.flatMap_def]

/-- A path is listed exactly if it is reachable. -/
theorem mem_preorder_iff {walker : Walker} {path : Path} {node : Json}
    (hnode : node.isNull = false) :
    path ∈ walker.preorder node ↔ ∃ target, walker.Reachable node path target := by
  induction path generalizing node with
  | nil =>
    refine ⟨fun _ => ⟨node, .root hnode⟩, fun _ => ?_⟩
    rw [preorder_eq]
    exact List.mem_cons_self
  | cons edge path ih =>
    have hchild : (edge :: path) ∈ walker.preorder node ↔
        ∃ child, (edge, child) ∈ walker.children node ∧ path ∈ walker.preorder child := by
      rw [preorder_eq]
      simp [List.mem_flatMap]
    rw [hchild]
    constructor
    · rintro ⟨child, hmem, hpath⟩
      obtain ⟨hfield, hfollow⟩ := Json.mem_children_iff.1 hmem
      obtain ⟨target, htarget⟩ := (ih (Json.isNull_of_follow hfollow)).1 hpath
      exact ⟨target, htarget.prepend hfield hfollow⟩
    · rintro ⟨target, htarget⟩
      obtain ⟨child, hfield, hfollow, hbelow⟩ := htarget.uncons
      exact ⟨child, Json.mem_children_iff.2 ⟨hfield, hfollow⟩,
        (ih (Json.isNull_of_follow hfollow)).2 ⟨target, hbelow⟩⟩

/-- A path is listed as often as the fields along it are. -/
theorem count_preorder (walker : Walker) (path : Path) (node : Json) :
    (walker.preorder node).count path = walker.multiplicity node path := by
  induction path generalizing node with
  | nil =>
    have hzero : ((walker.children node).flatMap fun child =>
        (walker.preorder child.2).map (child.1 :: ·)).count [] = 0 := by
      rw [List.count_eq_zero]
      simp [List.mem_flatMap]
    rw [preorder_eq, List.count_cons_self, hzero]
    rfl
  | cons edge path ih =>
    have hblock : ∀ child : Edge × Json,
        ((walker.preorder child.2).map (child.1 :: ·)).count (edge :: path) =
          if child.1 = edge then walker.multiplicity child.2 path else 0 := by
      intro child
      by_cases hedge : child.1 = edge
      · rw [if_pos hedge, hedge, List.count_map_of_injective _ _ List.cons_injective, ih]
      · rw [if_neg hedge, List.count_eq_zero]
        simp [hedge]
    rw [preorder_eq, List.count_cons_of_ne (List.cons_ne_nil edge path).symm, multiplicity]
    cases hfollow : node.follow edge with
    | none =>
      -- no child is found at this edge
      rw [count_flatMap_eq_countP_mul (fun _ => false) 0, Nat.mul_zero, Nat.mul_zero]
      rintro ⟨e, c⟩ hmem
      rw [hblock]
      apply if_neg
      intro hedge
      have hc := (Json.mem_children_iff.1 hmem).2
      rw [show e = edge from hedge, hfollow] at hc
      cases hc
    | some child =>
      -- every child found at this edge is the same node
      rw [count_flatMap_eq_countP_mul (fun c => c.1 = edge) (walker.multiplicity child path),
        children, Json.countP_children hfollow]
      rintro ⟨e, c⟩ hmem
      rw [hblock]
      by_cases hedge : e = edge
      · subst hedge
        have hc := (Json.mem_children_iff.1 hmem).2
        rw [hfollow] at hc
        cases hc
        simp
      · simp [hedge]

/-- The paths below a node come in the order of a walk. -/
theorem inOrder_preorder (walker : Walker) (node : Json) :
    InOrder (walker.Precedes node) (walker.preorder node) := by
  induction node using Json.children_induction with
  | step node ih =>
    rw [preorder_eq]
    refine ((node.inOrder_children (walker.keysOf node)).flatMap ?_ ?_).cons ?_
    · -- below one child
      rintro ⟨edge, child⟩ hmem
      have hfollow := (Json.mem_children_iff.1 hmem).2
      have hbelow := ih _ (edge, child) hmem
      exact InOrder.map (hbelow.imp fun p q hpq => .inside hfollow hpq)
    · -- below two children, one before the other
      rintro ⟨e, a⟩ - ⟨f, b⟩ - hbefore p hp q hq
      obtain ⟨p, -, rfl⟩ := List.mem_map.1 hp
      obtain ⟨q, -, rfl⟩ := List.mem_map.1 hq
      rcases hbefore with hfield | ⟨name, i, j, rfl, rfl, hij⟩
      · exact .field p q hfield
      · exact .index p q hij
    · -- the node itself comes before everything below it
      intro path hpath
      obtain ⟨⟨edge, child⟩, -, hbelow⟩ := List.mem_flatMap.1 hpath
      obtain ⟨rest, -, rfl⟩ := List.mem_map.1 hbelow
      exact .ancestor node edge rest

end Walker

end SyntaxWalk
