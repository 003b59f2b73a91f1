/-!
# Maps keyed by name

A finite map from names to values, held as its list of entries in strictly increasing order of the
names, so that two maps with the same bindings are equal. Names are compared by code point. The order
is part of the type: whatever builds a map, its names come out sorted and without repetition.

Main statements: reading after one and after many insertions (`get?_insert`, `get?_insertAll`), and that a name
is bound exactly when it is among the names (`mem_keys_iff`).
-/

set_option autoImplicit false

namespace SyntaxWalk

universe u

/-- Bindings of names to values; the first binding of a name is the one that counts. -/
abbrev Bindings (α : Type u) : Type u := List (String × α)

namespace Bindings

variable {α : Type u}

/-- The value that the first binding of a name gives it. -/
def get? (name : String) : Bindings α → Option α
  | [] => none
  | entry :: rest => if entry.1 = name then some entry.2 else get? name rest

/-- Binds a name in bindings sorted by name: an older binding of it gives way. -/
def set (name : String) (value : α) : Bindings α → Bindings α
  | [] => [(name, value)]
  | entry :: rest =>
    if name < entry.1 then (name, value) :: entry :: rest
    else if name = entry.1 then (name, value) :: rest
    else entry :: set name value rest

/-- The names increase strictly. -/
def Sorted (bindings : Bindings α) : Prop :=
  bindings.Pairwise fun a b => a.1 < b.1

/-- Every binding after one more is the new one or an old one. -/
theorem mem_set {name : String} {value : α} {bindings : Bindings α} {entry : String × α}
    (h : entry ∈ set name value bindings) : entry = (name, value) ∨ entry ∈ bindings := by
  induction bindings with
  | nil => simpa [set] using h
  | cons first rest ih =>
    simp only [set] at h
    split at h
    · simpa using h
    · split at h
      · rcases List.mem_cons.1 h with h | h
        · exact .inl h
        · exact .inr (List.mem_cons_of_mem _ h)
      · rcases List.mem_cons.1 h with h | h
        · exact .inr (h ▸ List.mem_cons_self)
        · exact (ih h).imp id (List.mem_cons_of_mem _)

/-- Binding a name keeps the names strictly increasing. -/
theorem Sorted.set {name : String} {value : α} {bindings : Bindings α} (h : Sorted bindings) :
    Sorted (set name value bindings) := by
  induction bindings with
  | nil => simp [Sorted, Bindings.set]
  | cons first rest ih =>
    obtain ⟨hfirst, hrest⟩ := List.pairwise_cons.1 h
    simp only [Bindings.set]
    split
    · rename_i hlt
      refine List.pairwise_cons.2 ⟨fun b hb => ?_, h⟩
      rcases List.mem_cons.1 hb with rfl | hb
      · exact hlt
      · exact String.lt_trans hlt (hfirst b hb)
    · rename_i hge
      split
      · rename_i heq
        exact List.pairwise_cons.2 ⟨fun b hb => heq ▸ hfirst b hb, hrest⟩
      · rename_i hne
        refine List.pairwise_cons.2 ⟨fun b hb => ?_, ih hrest⟩
        rcases mem_set hb with rfl | hb
        · exact String.not_le.1 fun hle => hne (String.le_antisymm hle (String.not_lt.1 hge))
        · exact hfirst b hb

/-- The bound name reads as its new value and every other name as before. -/
theorem get?_set (name other : String) (value : α) (bindings : Bindings α) :
    get? other (set name value bindings) =
      if name = other then some value else get? other bindings := by
  induction bindings with
  | nil => rfl
  | cons first rest ih =>
    simp only [set]
    split
    · rfl
    · split
      · rename_i heq
        by_cases h : name = other
        · simp [get?, h]
        · simp [get?, h, heq ▸ h]
      · rename_i hne
        by_cases h : first.1 = other
        · simp [get?, h, h ▸ hne]
        · simp [get?, h, ih]

/-- The value of a name stands in one of its bindings. -/
theorem mem_of_get? {name : String} {value : α} {bindings : Bindings α}
    (h : get? name bindings = some value) : (name, value) ∈ bindings := by
  induction bindings with
  | nil => cases h
  | cons first rest ih =>
    simp only [get?] at h
    split at h
    · rename_i hname
      cases h
      rw [← hname]
      exact List.mem_cons_self
    · exact List.mem_cons_of_mem _ (ih h)

/-- A name is bound exactly when it stands in front of some binding. -/
theorem isSome_get?_iff (name : String) (bindings : Bindings α) :
    (get? name bindings).isSome = true ↔ name ∈ bindings.map Prod.fst := by
  induction bindings with
  | nil => simp [get?]
  | cons first rest ih =>
    by_cases h : first.1 = name
    · simp [get?, h]
    · simp [get?, h, ih, Ne.symm h]

/-- Of joined bindings the earlier ones count. -/
theorem get?_append (name : String) (first second : Bindings α) :
    get? name (first ++ second) = (get? name first).or (get? name second) := by
  induction first with
  | nil => rfl
  | cons entry rest ih =>
    by_cases h : entry.1 = name
    · simp [get?, h]
    · simp [get?, h, ih]

end Bindings

/-- A finite map from names to values, sorted by name. -/
structure NameMap (α : Type u) where
  /-- The bindings in increasing order of their names. -/
  entries : Bindings α
  /-- The names increase strictly. -/
  sorted : entries.Sorted

namespace NameMap

variable {α : Type u}

/-- The map without bindings. -/
def empty : NameMap α :=
  ⟨[], .nil⟩

/-- The map with one more binding; an older binding of the name gives way. -/
def insert (map : NameMap α) (name : String) (value : α) : NameMap α :=
  ⟨map.entries.set name value, map.sorted.set⟩

/-- Binds the given pairs one after the other: of two with one name the later stays. -/
def insertAll (map : NameMap α) (pairs : List (String × α)) : NameMap α :=
  pairs.foldl (fun m pair => m.insert pair.1 pair.2) map

/-- The map of a list of pairs; of two with one name the later stays. -/
def ofList (pairs : List (String × α)) : NameMap α :=
  empty.insertAll pairs

/-- The value bound to a name. -/
def get? (map : NameMap α) (name : String) : Option α :=
  map.entries.get? name

/-- Is the name bound? -/
def contains (map : NameMap α) (name : String) : Bool :=
  (map.get? name).isSome

/-- The names in increasing order. -/
def keys (map : NameMap α) : List String :=
  map.entries.map Prod.fst

/-- The number of names. -/
def size (map : NameMap α) : Nat :=
  map.entries.length

/-- Does the map bind no name? -/
def isEmpty (map : NameMap α) : Bool :=
  map.entries.isEmpty

instance [DecidableEq α] : DecidableEq (NameMap α) := fun a b =>
  decidable_of_iff (a.entries = b.entries)
    ⟨fun h => by cases a; cases b; cases h; rfl, fun h => h ▸ rfl⟩

instance : Inhabited (NameMap α) := ⟨empty⟩

/-! ## Reading what was bound -/

theorem get?_insert (map : NameMap α) (name other : String) (value : α) :
    (map.insert name value).get? other = if name = other then some value else map.get? other :=
  Bindings.get?_set name other value map.entries

/-- After many insertions a name reads as the last value inserted for it, and a name for which there is none
reads as before. -/
theorem get?_insertAll (map : NameMap α) (pairs : List (String × α)) (name : String) :
    (map.insertAll pairs).get? name = (Bindings.get? name pairs.reverse).or (map.get? name) := by
  induction pairs generalizing map with
  | nil => rfl
  | cons pair rest ih =>
    have hrest : (map.insertAll (pair :: rest)).get? name =
        ((map.insert pair.1 pair.2).insertAll rest).get? name := rfl
    rw [hrest, ih, get?_insert, List.reverse_cons, Bindings.get?_append, Option.or_assoc]
    by_cases h : pair.1 = name
    · simp [Bindings.get?, h]
    · simp [Bindings.get?, h]

@[simp] theorem get?_empty (name : String) : (empty : NameMap α).get? name = none := rfl

theorem pairwise_keys (map : NameMap α) : map.keys.Pairwise (· < ·) :=
  List.pairwise_map.2 map.sorted

/-- A name is among the names exactly when it is bound. -/
theorem mem_keys_iff (map : NameMap α) (name : String) :
    name ∈ map.keys ↔ map.contains name = true :=
  (Bindings.isSome_get?_iff name map.entries).symm

end NameMap

end SyntaxWalk
