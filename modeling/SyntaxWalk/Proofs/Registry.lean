import Mathlib.Data.List.Nodup
import Mathlib.Data.List.Perm.Basic
import Mathlib.Data.List.Sort
import SyntaxWalk.Settings.Basic

/-!
# What a registry answers

A registry is made by steps that write entries over the standard node types. `lastWritten?` reads off the
steps what was written last for a name, and `Registry.Overlays` says what a registry answers if these are its
extension entries: the entry of each name, where it comes from, the sorted list of the names and their
number. The names are collected from two sources that may overlap, sorted and freed of repetitions, which gives the
names of a map with both of them (`typeNames_eq_keys`); the number is counted. The two agree because the standard
names are all different and an overridden one is counted once.

The registry of any steps answers so, and so does the registry of any settings (`build_overlays`). Steps that
write different names may change places: a registry depends only on the order of the steps that write one
name.
-/

set_option autoImplicit false

namespace SyntaxWalk

universe u

/-! ## Maps with the same bindings -/

/-- In sorted bindings every binding counts. -/
theorem Bindings.Sorted.get?_of_mem {α : Type u} {bindings : Bindings α} (h : bindings.Sorted)
    {name : String} {value : α} (hmem : (name, value) ∈ bindings) :
    Bindings.get? name bindings = some value := by
  induction bindings with
  | nil => cases hmem
  | cons first rest ih =>
    obtain ⟨hfirst, hrest⟩ := List.pairwise_cons.1 h
    rcases List.mem_cons.1 hmem with rfl | hmem
    · simp [Bindings.get?]
    · -- the first name is smaller than this one
      have hlt := hfirst _ hmem
      have hne : first.1 ≠ name := by
        intro heq
        rw [heq] at hlt
        exact String.lt_irrefl _ hlt
      simp [Bindings.get?, hne, ih hrest hmem]

theorem Bindings.Sorted.nodup {α : Type u} {bindings : Bindings α} (h : bindings.Sorted) :
    bindings.Nodup := by
  have hnames : (bindings.map Prod.fst).Nodup := (List.pairwise_map.2 h).nodup
  exact hnames.of_map _

/-- Sorted bindings are determined by the values of the names. -/
theorem Bindings.Sorted.eq_of_get? {α : Type u} {a b : Bindings α} (ha : a.Sorted) (hb : b.Sorted)
    (h : ∀ name, Bindings.get? name a = Bindings.get? name b) : a = b := by
  have hmem : ∀ entry, entry ∈ a ↔ entry ∈ b := by
    rintro ⟨name, value⟩
    constructor
    · intro hentry
      apply Bindings.mem_of_get?
      rw [← h, ha.get?_of_mem hentry]
    · intro hentry
      apply Bindings.mem_of_get?
      rw [h, hb.get?_of_mem hentry]
  have hperm := (List.perm_ext_iff_of_nodup ha.nodup hb.nodup).2 hmem
  refine hperm.eq_of_pairwise ?_ ha hb
  intro x y _ _ hxy hyx
  exact absurd (String.lt_trans hxy hyx) (String.lt_irrefl _)

theorem NameMap.ext_get? {α : Type u} {a b : NameMap α} (h : ∀ name, a.get? name = b.get? name) :
    a = b := by
  rcases a with ⟨entries, hsorted⟩
  rcases b with ⟨others, hsorted'⟩
  cases hsorted.eq_of_get? hsorted' h
  rfl

/-- The names of a map alone, each bound to nothing. -/
def NameMap.names {α : Type u} (map : NameMap α) : NameMap Unit :=
  ⟨map.entries.map fun entry => (entry.1, ()), by
    simpa [Bindings.Sorted, List.pairwise_map] using map.sorted⟩

@[simp] theorem NameMap.keys_names {α : Type u} (map : NameMap α) : map.names.keys = map.keys := by
  simp [names, keys]

/-- Sorted bindings may be read from either end. -/
theorem Bindings.Sorted.get?_reverse {α : Type u} {bindings : Bindings α} (h : bindings.Sorted)
    (name : String) : Bindings.get? name bindings.reverse = Bindings.get? name bindings := by
  cases hget : Bindings.get? name bindings.reverse with
  | some value => rw [h.get?_of_mem (List.mem_reverse.1 (Bindings.mem_of_get? hget))]
  | none =>
    rw [← Option.not_isSome_iff_eq_none, Bindings.isSome_get?_iff, List.map_reverse,
      List.mem_reverse, ← Bindings.isSome_get?_iff, Option.not_isSome_iff_eq_none] at hget
    exact hget.symm

/-- The map of sorted bindings has just these bindings. -/
theorem Bindings.Sorted.entries_ofList {α : Type u} {bindings : Bindings α} (h : bindings.Sorted) :
    (NameMap.ofList bindings).entries = bindings := by
  apply (NameMap.ofList bindings).sorted.eq_of_get? h
  intro name
  have hget := NameMap.get?_insertAll .empty bindings name
  rw [h.get?_reverse, NameMap.get?_empty, Option.or_none] at hget
  exact hget

theorem NodeType.name_injective : Function.Injective NodeType.name := by
  intro s t hname
  -- both are found by this name
  have hs := NodeType.ofName?_name s
  rw [hname, NodeType.ofName?_name] at hs
  exact (Option.some.inj hs).symm

/-- A name is standard exactly if some node type bears it. -/
theorem NodeType.isSome_ofName?_iff {name : String} :
    (NodeType.ofName? name).isSome = true ↔ ∃ t : NodeType, t.name = name := by
  simp only [Option.isSome_iff_exists, NodeType.ofName?_eq_some_iff]

/-! ## Lists without their repetitions -/

section Repetitions

variable {α : Type u} [BEq α]

/-- What was kept so far does not matter to what is dropped. -/
theorem eraseReps_loop (a : α) (rest kept : List α) :
    List.eraseRepsBy.loop (· == ·) a rest kept =
      kept.reverse ++ List.eraseRepsBy.loop (· == ·) a rest [] := by
  induction rest generalizing a kept with
  | nil => simp [List.eraseRepsBy.loop]
  | cons b rest ih =>
    cases hab : a == b with
    | true =>
      simp only [List.eraseRepsBy.loop, hab]
      exact ih a kept
    | false =>
      simp only [List.eraseRepsBy.loop, hab]
      rw [ih b (a :: kept), ih b [a], List.reverse_cons, List.append_assoc]
      rfl

theorem eraseReps_cons_cons (a b : α) (rest : List α) :
    (a :: b :: rest).eraseReps = if a == b then (a :: rest).eraseReps else a :: (b :: rest).eraseReps := by
  have hcons : ∀ (first : α) (others : List α), (first :: others).eraseReps =
      List.eraseRepsBy.loop (· == ·) first others [] := fun _ _ => rfl
  simp only [hcons, List.eraseRepsBy.loop]
  cases hab : a == b with
  | true => rfl
  | false => exact eraseReps_loop b rest [a]

variable [LawfulBEq α]

theorem mem_eraseReps_cons (x a : α) (rest : List α) :
    x ∈ (a :: rest).eraseReps ↔ x = a ∨ x ∈ rest := by
  induction rest generalizing a with
  | nil => simp [List.eraseReps, List.eraseRepsBy, List.eraseRepsBy.loop]
  | cons b rest ih =>
    rw [eraseReps_cons_cons]
    split
    · rename_i hab
      rw [ih, eq_of_beq hab, List.mem_cons, or_self_left]
    · rw [List.mem_cons, ih, List.mem_cons]

@[simp] theorem mem_eraseReps (x : α) (list : List α) : x ∈ list.eraseReps ↔ x ∈ list := by
  cases list with
  | nil => rfl
  | cons a rest => rw [mem_eraseReps_cons, List.mem_cons]

end Repetitions

/-- A sorted list increases strictly once the repetitions are dropped. -/
theorem pairwise_eraseReps {names : List String} (h : names.Pairwise (· ≤ ·)) :
    names.eraseReps.Pairwise (· < ·) := by
  cases names with
  | nil => exact .nil
  | cons a rest =>
    induction rest generalizing a with
    | nil => exact List.pairwise_singleton _ _
    | cons b rest ih =>
      obtain ⟨hfirst, hrest⟩ := List.pairwise_cons.1 h
      rw [eraseReps_cons_cons]
      split
      · rename_i hab
        rw [eq_of_beq hab]
        exact ih b hrest
      · rename_i hab
        -- the first name differs from the second, so it is smaller than that and all after it
        have hlt : a < b := by
          apply String.not_le.1
          intro hle
          exact hab (beq_iff_eq.2 (String.le_antisymm (hfirst b List.mem_cons_self) hle))
        refine List.pairwise_cons.2 ⟨?_, ih b hrest⟩
        intro c hc
        rcases (mem_eraseReps_cons c b rest).1 hc with rfl | hc
        · exact hlt
        · exact Std.lt_of_lt_of_le hlt ((List.pairwise_cons.1 hrest).1 c hc)

/-! ## What steps write -/

namespace Registry

/-- Does the step write the entry of this name? -/
def BuildStep.writes (step : BuildStep) (name : String) : Bool :=
  step.written.any fun pair => pair.1 = name

/-- The fields that the steps wrote last for a name. -/
def lastWritten? (steps : List BuildStep) (name : String) : Option (List String) :=
  Bindings.get? name (steps.flatMap BuildStep.written).reverse

theorem lastWritten?_append (first second : List BuildStep) (name : String) :
    lastWritten? (first ++ second) name =
      (lastWritten? second name).or (lastWritten? first name) := by
  rw [lastWritten?, List.flatMap_append, List.reverse_append, Bindings.get?_append]
  rfl

/-- Something was written for a name exactly if some step wrote it. -/
theorem isSome_lastWritten?_iff {steps : List BuildStep} {name : String} :
    (lastWritten? steps name).isSome = true ↔ ∃ step ∈ steps, step.writes name = true := by
  rw [lastWritten?, Bindings.isSome_get?_iff]
  simp only [List.map_reverse, List.mem_reverse, List.mem_map, List.mem_flatMap, BuildStep.writes,
    List.any_eq_true, decide_eq_true_eq]
  constructor
  · rintro ⟨pair, ⟨step, hstep, hpair⟩, hname⟩
    exact ⟨step, hstep, pair, hpair, hname⟩
  · rintro ⟨step, hstep, pair, hpair, hname⟩
    exact ⟨pair, ⟨step, hstep, hpair⟩, hname⟩

/-- Steps that do not write a name do not matter to what was written for it. -/
theorem lastWritten?_filter (steps : List BuildStep) (name : String) :
    lastWritten? (steps.filter fun step => step.writes name) name = lastWritten? steps name := by
  induction steps with
  | nil => rfl
  | cons step rest ih =>
    have hcons : ∀ others : List BuildStep, lastWritten? (step :: others) name =
        (lastWritten? others name).or (lastWritten? [step] name) :=
      fun others => lastWritten?_append [step] others name
    by_cases hwrites : step.writes name = true
    · rw [List.filter_cons, if_pos hwrites, hcons, ih, ← hcons]
    · have hnone : lastWritten? [step] name = none := by
        rw [← Option.not_isSome_iff_eq_none, isSome_lastWritten?_iff]
        simpa using hwrites
      rw [List.filter_cons, if_neg hwrites, hcons, hnone, Option.or_none, ih]

theorem get?_extend (registry : Registry) (step : BuildStep) (name : String) :
    (registry.extend step).extensions.get? name =
      (lastWritten? [step] name).or (registry.extensions.get? name) := by
  rw [extend, NameMap.get?_insertAll, lastWritten?, List.flatMap_singleton]

theorem get?_foldl_extend (steps : List BuildStep) (registry : Registry) (name : String) :
    (steps.foldl extend registry).extensions.get? name =
      (lastWritten? steps name).or (registry.extensions.get? name) := by
  induction steps generalizing registry with
  | nil => rfl
  | cons step rest ih =>
    have happend := lastWritten?_append [step] rest name
    rw [List.singleton_append] at happend
    rw [List.foldl_cons, ih, get?_extend, happend, Option.or_assoc]

/-- The extension entries of a registry are those that its steps wrote last. -/
@[simp] theorem get?_build (steps : List BuildStep) (name : String) :
    (build steps).extensions.get? name = lastWritten? steps name := by
  rw [build, get?_foldl_extend, standard, NameMap.get?_empty, Option.or_none]

theorem ext_get? {a b : Registry} (h : ∀ name, a.extensions.get? name = b.extensions.get? name) :
    a = b := by
  rcases a with ⟨extensions⟩
  rcases b with ⟨others⟩
  cases NameMap.ext_get? h
  rfl

/-- Only the order of the steps that write one name matters. -/
theorem build_congr {steps others : List BuildStep}
    (h : ∀ name, others.filter (fun step => step.writes name) =
      steps.filter fun step => step.writes name) : build others = build steps := by
  apply ext_get?
  intro name
  rw [get?_build, get?_build, ← lastWritten?_filter others, h, lastWritten?_filter]

/-! ## Looking up a name -/

section Entry

variable {registry : Registry} {name : String}

theorem entry?_of_some {keys : List String} (h : registry.extensions.get? name = some keys) :
    registry.entry? name = some ⟨.extension, keys⟩ := by
  unfold entry?
  rw [h]

theorem entry?_of_none (h : registry.extensions.get? name = none) :
    registry.entry? name = (NodeType.ofName? name).map fun t => ⟨.standard, t.childKeys⟩ := by
  unfold entry?
  rw [h]

/-- A registry knows the names with an extension entry and the standard ones. -/
theorem contains_iff :
    registry.contains name = true ↔
      registry.isExtension name = true ∨ ∃ t : NodeType, t.name = name := by
  rw [← NodeType.isSome_ofName?_iff, contains, isExtension, NameMap.contains]
  cases hget : registry.extensions.get? name with
  | some keys => simp [entry?_of_some hget]
  | none => simp [entry?_of_none hget]

/-- The fields of a name after one more step: those that the step writes, else those before. -/
theorem keys?_extend (registry : Registry) (step : BuildStep) (name : String) :
    (registry.extend step).keys? name = (lastWritten? [step] name).or (registry.keys? name) := by
  have hget := registry.get?_extend step name
  cases hwritten : lastWritten? [step] name with
  | some keys =>
    rw [hwritten, Option.some_or] at hget
    rw [keys?, entry?_of_some hget]
    rfl
  | none =>
    rw [hwritten, Option.none_or] at hget
    rw [Option.none_or, keys?, keys?]
    cases hold : registry.extensions.get? name with
    | some keys => rw [entry?_of_some hold, entry?_of_some (hget.trans hold)]
    | none => rw [entry?_of_none hold, entry?_of_none (hget.trans hold)]

theorem keys?_extend_entry (registry : Registry) (written : String) (keys : List String)
    (name : String) :
    (registry.extend (.entry written keys)).keys? name =
      if written = name then some keys else registry.keys? name := by
  rw [keys?_extend]
  by_cases h : written = name
  · simp [lastWritten?, BuildStep.written, Bindings.get?, h]
  · simp [lastWritten?, BuildStep.written, Bindings.get?, h]

end Entry

/-! ## The names of a registry -/

theorem mem_typeNames_iff {registry : Registry} {name : String} :
    name ∈ registry.typeNames ↔ registry.contains name = true := by
  have hstandard : name ∈ NodeType.all.map NodeType.name ↔ ∃ t : NodeType, t.name = name := by
    simp [NodeType.mem_all]
  rw [typeNames, mem_eraseReps, List.mem_mergeSort, List.mem_append, hstandard, NameMap.mem_keys_iff, contains_iff]
  exact Or.comm

theorem pairwise_typeNames (registry : Registry) : registry.typeNames.Pairwise (· < ·) := by
  have htrans : ∀ a b c : String, decide (a ≤ b) = true → decide (b ≤ c) = true → decide (a ≤ c) = true := by
    simp only [decide_eq_true_eq]
    exact fun _ _ _ => String.le_trans
  have htotal : ∀ a b : String, (decide (a ≤ b) || decide (b ≤ a)) = true := by
    simpa only [Bool.or_eq_true, decide_eq_true_eq] using String.le_total
  apply pairwise_eraseReps
  simpa only [decide_eq_true_eq] using List.pairwise_mergeSort htrans htotal _

/-- The listed names are those of the map that binds the names of both tables. -/
theorem typeNames_eq_keys (registry : Registry) :
    registry.typeNames =
      (registry.extensions.names.insertAll (NodeType.all.map fun t => (t.name, ()))).keys := by
  refine registry.pairwise_typeNames.eq_of_mem_iff (NameMap.pairwise_keys _) ?_
  intro name
  have hstandard : (Bindings.get? name
      (NodeType.all.map fun t => (t.name, ())).reverse).isSome = true ↔
        ∃ t : NodeType, t.name = name := by
    rw [Bindings.isSome_get?_iff]
    simp [NodeType.mem_all]
  have hextension : (registry.extensions.names.get? name).isSome = true ↔
      registry.isExtension name = true := by
    rw [isExtension, ← NameMap.mem_keys_iff, ← NameMap.keys_names, NameMap.mem_keys_iff]
    rfl
  rw [mem_typeNames_iff, NameMap.mem_keys_iff, NameMap.contains, NameMap.get?_insertAll, Option.isSome_or,
    Bool.or_eq_true, hstandard, hextension, contains_iff]
  exact Or.comm

/-- The listed names are the standard ones and the names of extension entries that are not standard, in some
order. -/
theorem perm_typeNames (registry : Registry) :
    registry.typeNames.Perm (NodeType.all.map NodeType.name ++
      registry.extensions.keys.filter fun name => (NodeType.ofName? name).isNone) := by
  have hdisjoint : (NodeType.all.map NodeType.name).Disjoint
      (registry.extensions.keys.filter fun name => (NodeType.ofName? name).isNone) := by
    intro name hname hextra
    obtain ⟨t, -, rfl⟩ := List.mem_map.1 hname
    simp [NodeType.ofName?_name] at hextra
  refine (List.perm_ext_iff_of_nodup registry.pairwise_typeNames.nodup ?_).2 ?_
  · have hnames := NodeType.nodup_all.map NodeType.name_injective
    exact hnames.append (registry.extensions.pairwise_keys.nodup.filter _) hdisjoint
  · intro name
    have hmem : name ∈ NodeType.all.map NodeType.name ↔ ∃ t : NodeType, t.name = name := by
      simp [NodeType.mem_all]
    rw [mem_typeNames_iff, contains_iff, List.mem_append, hmem, List.mem_filter,
      NameMap.mem_keys_iff, isExtension, Option.isNone_iff_eq_none, ← Option.not_isSome_iff_eq_none,
      NodeType.isSome_ofName?_iff]
    -- an overridden standard name is listed among the standard ones only
    by_cases hstandard : ∃ t : NodeType, t.name = name
    · simp only [hstandard, or_true, true_or]
    · simp only [hstandard, or_false, false_or, not_false_eq_true, and_true]

/-- The size of a registry is the number of its names. -/
theorem length_typeNames (registry : Registry) : registry.typeNames.length = registry.size := by
  rw [registry.perm_typeNames.length_eq, List.length_append, List.length_map]
  rfl

/-! ## The answers of a registry -/

/-- What a registry answers whose extension entries are given by name. -/
structure Overlays (registry : Registry) (written : String → Option (List String)) : Prop where
  /-- A written name has an extension entry with the fields written for it. -/
  extension : ∀ name keys, registry.entry? name = some ⟨.extension, keys⟩ ↔ written name = some keys
  /-- A standard name that is not written has the standard entry. -/
  standard : ∀ name keys, registry.entry? name = some ⟨.standard, keys⟩ ↔
    written name = none ∧ ∃ t : NodeType, t.name = name ∧ t.childKeys = keys
  /-- No other name has an entry. -/
  unknown : ∀ name, registry.entry? name = none ↔
    written name = none ∧ ¬ ∃ t : NodeType, t.name = name
  /-- The fields of an entry come out in order, and backward in reverse order. -/
  fields : ∀ name entry, registry.entry? name = some entry →
    entry.forward = entry.keys ∧ entry.backward = entry.keys.reverse
  /-- The extensions are the written names. -/
  isExtension : ∀ name, registry.isExtension name = true ↔ (written name).isSome = true
  /-- The names with an entry are the written and the standard ones. -/
  contains : ∀ name, registry.contains name = true ↔
    (written name).isSome = true ∨ ∃ t : NodeType, t.name = name
  /-- The names are listed in strictly increasing order. -/
  sorted : registry.typeNames.Pairwise (· < ·)
  /-- The listed names are those with an entry. -/
  names : ∀ name, name ∈ registry.typeNames ↔ registry.contains name = true
  /-- The size is the number of names. -/
  size : registry.typeNames.length = registry.size

/-- A registry answers according to its extension entries. -/
theorem overlays_of_get? {registry : Registry} {written : String → Option (List String)}
    (h : ∀ name, registry.extensions.get? name = written name) : registry.Overlays written where
  extension name keys := by
    rw [← h]
    cases hget : registry.extensions.get? name with
    | some fields => simp [entry?_of_some hget]
    | none => simp [entry?_of_none hget]
  standard name keys := by
    rw [← h]
    cases hget : registry.extensions.get? name with
    | some fields => simp [entry?_of_some hget]
    | none =>
      rw [entry?_of_none hget, Option.map_eq_some_iff]
      constructor
      · rintro ⟨t, ht, hkeys⟩
        cases hkeys
        exact ⟨rfl, t, NodeType.name_of_ofName? ht, rfl⟩
      · rintro ⟨-, t, rfl, rfl⟩
        exact ⟨t, NodeType.ofName?_name t, rfl⟩
  unknown name := by
    rw [← h, ← NodeType.isSome_ofName?_iff]
    cases hget : registry.extensions.get? name with
    | some fields => simp [entry?_of_some hget]
    | none => simp [entry?_of_none hget]
  fields name entry _ := ⟨entry.forward_eq, entry.backward_eq⟩
  isExtension name := by rw [Registry.isExtension, NameMap.contains, h]
  contains name := by rw [contains_iff, Registry.isExtension, NameMap.contains, h]
  sorted := pairwise_typeNames registry
  names _ := mem_typeNames_iff
  size := length_typeNames registry

end Registry

namespace Settings

variable (settings : Settings)

theorem get?_registry (name : String) :
    settings.registry.extensions.get? name = settings.keys.get? name := by
  rw [registry, Registry.get?_build, Registry.lastWritten?, List.flatMap_singleton]
  exact settings.keys.sorted.get?_reverse name

/-- The registry of settings has the fields chosen in them as its extension entries. -/
theorem registry_eq : settings.registry = ⟨settings.keys⟩ :=
  Registry.ext_get? settings.get?_registry

end Settings

namespace Registry

/-- The registry of any steps answers with the entries last written, over the standard ones; so does the
registry of any settings with the entries of their map. Steps that write different names may change places
without a change of the registry. -/
theorem build_overlays (steps : List BuildStep) :
    (build steps).Overlays (lastWritten? steps) ∧
    (∀ name, (build steps).isExtension name = true ↔ ∃ step ∈ steps, step.writes name = true) ∧
    (∀ settings : Settings, settings.registry.Overlays settings.keys.get?) ∧
    ∀ others : List BuildStep,
      (∀ name, others.filter (fun step => step.writes name) =
        steps.filter fun step => step.writes name) →
      build others = build steps := by
  refine ⟨overlays_of_get? (get?_build steps), ?_, ?_, fun _ => build_congr⟩
  · intro name
    rw [isExtension, NameMap.contains, get?_build, isSome_lastWritten?_iff]
  · intro settings
    exact overlays_of_get? settings.get?_registry

/-- A step that writes a new name may be taken before those that override a standard name twice; of these
the later counts. -/
theorem build_overlays_literal :
    build [.entry "Tag" ["name"], .entry "Literal" ["raw"],
        .entries [("Text", []), ("Literal", ["value"])]] =
      build [.entry "Literal" ["raw"], .entries [("Text", []), ("Literal", ["value"])],
        .entry "Tag" ["name"]] ∧
    entry? (build [.entry "Literal" ["raw"], .entries [("Text", []), ("Literal", ["value"])],
      .entry "Tag" ["name"]]) "Literal" = some ⟨.extension, ["value"]⟩ := by
  have hanswers := build_overlays [.entry "Literal" ["raw"],
    .entries [("Text", []), ("Literal", ["value"])], .entry "Tag" ["name"]]
  refine ⟨hanswers.2.2.2 _ ?_, (hanswers.1.extension _ _).2 (by decide)⟩
  intro name
  -- only the moved step writes its name
  by_cases hname : "Tag" = name
  · subst hname
    simp [BuildStep.writes, BuildStep.written]
  · simp [BuildStep.writes, BuildStep.written, hname, List.filter_cons]

end Registry

end SyntaxWalk
