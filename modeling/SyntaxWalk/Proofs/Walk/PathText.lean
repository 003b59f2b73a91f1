import Mathlib
import SyntaxWalk.Node
import SyntaxWalk.Registry

/-!
# Reading the text of a path

The text of a path joins its edges by points and puts indices in brackets (`Path.render`); the empty path
is written `<root>`. `Path.read?` takes such a text apart again: `<root>` is the empty path, any other text
is split at its points, and each segment is the name of a field, with or without an index in brackets.

Names could be confused with this punctuation. Where they are plain (`PlainName`), reading a text gives
back the path that was written (`read?_render`), so that two paths never have one text (`render_inj`) and
only the empty path is written `<root>`. All names of the standard table are plain.
-/

set_option autoImplicit false

namespace SyntaxWalk

/-! ## Readers -/

/-- The number written by decimal digits. -/
def readDecimal? (digits : List Char) : Option Nat :=
  if digits ≠ [] ∧ ∀ c ∈ digits, c.isDigit = true then some (Nat.ofDigitChars 10 digits 0)
  else none

/-- The edge written by a segment: the name of a field, or the name and an index in brackets. -/
def Edge.read? (segment : List Char) : Option Edge :=
  let name := String.ofList (segment.takeWhile (· ≠ '['))
  match segment.dropWhile (· ≠ '[') with
  | [] => some ⟨name, none⟩
  | _ :: rest =>
    if rest.getLast? = some ']' then (readDecimal? rest.dropLast).map fun i => ⟨name, some i⟩
    else none

/-- The path written by a text. -/
def Path.read? (text : String) : Option Path :=
  if text = "<root>" then some [] else (text.toList.splitOn '.').mapM Edge.read?

/-- A name that the punctuation of a path leaves intact. -/
structure PlainName (name : String) : Prop where
  ne_empty : name ≠ ""
  no_point : '.' ∉ name.toList
  no_bracket : '[' ∉ name.toList
  ne_root : name ≠ "<root>"

/-! ## What is written -/

/-- The characters of an edge. -/
def Edge.text (edge : Edge) : List Char :=
  match edge.index with
  | none => edge.field.toList
  | some i => edge.field.toList ++ '[' :: (Nat.toDigits 10 i ++ [']'])

theorem Edge.text_ne_nil {edge : Edge} (h : edge.field ≠ "") : edge.text ≠ [] := by
  have hname : edge.field.toList ≠ [] := by
    rw [ne_eq, String.toList_eq_nil_iff]
    exact h
  unfold text
  split
  · exact hname
  · simp

/-- No point stands in the characters of an edge. -/
theorem Edge.point_notMem_text {edge : Edge} (h : PlainName edge.field) : '.' ∉ edge.text := by
  unfold text
  split
  · exact h.no_point
  · rename_i i _
    intro hmem
    rcases List.mem_append.1 hmem with hname | hindex
    · exact h.no_point hname
    · -- what is in the brackets are digits
      have hdigits : '.' ∈ Nat.toDigits 10 i := by simpa using hindex
      have hdigit := Nat.isDigit_of_mem_toDigits (by decide) (by decide) hdigits
      exact absurd hdigit (by decide)

namespace Path

/-- Behind some text, an edge is written with a point before it; at the start, without. -/
theorem toList_append (text : String) (edge : Edge) :
    (append text edge).toList =
      if text = "" then edge.text else text.toList ++ '.' :: edge.text := by
  have hkey : (if text = "" then edge.field else text ++ "." ++ edge.field).toList =
      (if text = "" then [] else text.toList ++ ['.']) ++ edge.field.toList := by
    split
    · rfl
    · simp
  unfold append Edge.text
  cases edge.index with
  | none =>
    dsimp only
    rw [hkey]
    split
    · rfl
    · simp
  | some i =>
    dsimp only
    rw [String.toList_append, String.toList_append, String.toList_append, hkey,
      Nat.toString_eq_ofList_toDigits, String.toList_ofList]
    split
    · simp
    · simp

/-- The characters of a path behind some text. -/
theorem toList_foldl_append {text : String} (htext : text ≠ "") (path : Path) :
    (path.foldl append text).toList = text.toList ++ path.flatMap fun edge => '.' :: edge.text := by
  induction path generalizing text with
  | nil => simp
  | cons edge rest ih =>
    have hfirst := toList_append text edge
    rw [if_neg htext] at hfirst
    have hne : append text edge ≠ "" := by
      intro hempty
      rw [hempty] at hfirst
      simp at hfirst
    rw [List.foldl_cons, ih hne, hfirst, List.flatMap_cons, List.append_assoc]

theorem intercalate_point_cons (first : List Char) (others : List (List Char)) :
    ['.'].intercalate (first :: others) = first ++ others.flatMap ('.' :: ·) := by
  induction others generalizing first with
  | nil => simp
  | cons second others ih => simp [List.intercalate_cons_cons, ih]

/-- The characters of a path that is not empty: those of its edges, joined by points. -/
theorem toList_render {edge : Edge} {rest : Path} (h : edge.field ≠ "") :
    (render (edge :: rest)).toList = ['.'].intercalate ((edge :: rest).map Edge.text) := by
  have hfirst := toList_append "" edge
  rw [if_pos rfl] at hfirst
  have hne : append "" edge ≠ "" := by
    intro hempty
    rw [hempty] at hfirst
    exact Edge.text_ne_nil h hfirst.symm
  have htext : ((edge :: rest).foldl append "").toList =
      ['.'].intercalate ((edge :: rest).map Edge.text) := by
    rw [List.foldl_cons, toList_foldl_append hne, hfirst, List.map_cons, intercalate_point_cons,
      List.flatMap_map]
  -- some text is written, so that `<root>` does not take its place
  have hwhole : (edge :: rest).foldl append "" ≠ "" := by
    intro hempty
    rw [hempty, List.map_cons, intercalate_point_cons] at htext
    exact Edge.text_ne_nil h (List.append_eq_nil_iff.1 htext.symm).1
  rw [render, if_neg hwhole, htext]

/-- The text of two joined paths has a point between their texts, if no field along them has an empty name. -/
theorem render_append {first second : Path} (hfirst : first ≠ []) (hsecond : second ≠ [])
    (h : ∀ edge ∈ first ++ second, edge.field ≠ "") :
    (first ++ second).render = first.render ++ "." ++ second.render := by
  obtain ⟨edge, rest, rfl⟩ := List.exists_cons_of_ne_nil hfirst
  obtain ⟨next, others, rfl⟩ := List.exists_cons_of_ne_nil hsecond
  have hedge : edge.field ≠ "" := h edge List.mem_cons_self
  have hnext : next.field ≠ "" := h next (List.mem_append_right _ List.mem_cons_self)
  apply String.toList_inj.1
  rw [String.toList_append, String.toList_append, List.cons_append, toList_render hedge,
    toList_render hedge, toList_render hnext]
  simp only [List.map_cons, List.map_append, intercalate_point_cons, List.flatMap_append,
    List.flatMap_cons]
  simp

end Path

/-! ## Reading what was written -/

theorem readDecimal?_toDigits (n : Nat) : readDecimal? (Nat.toDigits 10 n) = some n := by
  have hdigits : Nat.toDigits 10 n ≠ [] ∧ ∀ c ∈ Nat.toDigits 10 n, c.isDigit = true :=
    ⟨Nat.toDigits_ne_nil, fun c hc => Nat.isDigit_of_mem_toDigits (by decide) (by decide) hc⟩
  rw [readDecimal?, if_pos hdigits, Nat.ofDigitChars_ten_toDigits]

/-- The characters of an edge are read back. -/
theorem Edge.read?_text {edge : Edge} (h : PlainName edge.field) :
    Edge.read? edge.text = some edge := by
  rcases edge with ⟨name, index⟩
  have hname : ∀ c ∈ name.toList, decide (c ≠ '[') = true := by
    intro c hc
    apply decide_eq_true
    rintro rfl
    exact h.no_bracket hc
  cases index with
  | none =>
    have htake : name.toList.takeWhile (· ≠ '[') = name.toList := List.takeWhile_eq_self_iff.2 hname
    have hdrop : name.toList.dropWhile (· ≠ '[') = [] := List.dropWhile_eq_nil_iff.2 hname
    rw [text, read?]
    dsimp only
    rw [htake, hdrop, String.ofList_toList]
  | some i =>
    rw [text, read?]
    dsimp only
    -- the name passes the test as a whole, and the bracket ends it
    rw [List.takeWhile_append_of_pos hname, List.dropWhile_append_of_pos hname]
    simp [readDecimal?_toDigits]

namespace Path

theorem mapM_read?_text {path : Path} (h : ∀ edge ∈ path, PlainName edge.field) :
    (path.map Edge.text).mapM Edge.read? = some path := by
  induction path with
  | nil => rfl
  | cons edge rest ih =>
    obtain ⟨hedge, hrest⟩ := List.forall_mem_cons.1 h
    rw [List.map_cons, List.mapM_cons, Edge.read?_text hedge, ih hrest]
    rfl

/-- A path that is not empty is read back from its segments. -/
theorem mapM_read?_splitOn_render {edge : Edge} {rest : Path}
    (h : ∀ e ∈ edge :: rest, PlainName e.field) :
    ((render (edge :: rest)).toList.splitOn '.').mapM Edge.read? = some (edge :: rest) := by
  have hsegments : (render (edge :: rest)).toList.splitOn '.' = (edge :: rest).map Edge.text := by
    rw [toList_render (h edge List.mem_cons_self).ne_empty]
    apply List.splitOn_intercalate
    · intro segment hsegment
      obtain ⟨e, he, rfl⟩ := List.mem_map.1 hsegment
      exact Edge.point_notMem_text (h e he)
    · exact List.cons_ne_nil _ _
  rw [hsegments, mapM_read?_text h]

theorem render_ne_root {edge : Edge} {rest : Path} (h : ∀ e ∈ edge :: rest, PlainName e.field) :
    render (edge :: rest) ≠ "<root>" := by
  intro hroot
  have hread := mapM_read?_splitOn_render h
  -- this text has one segment, which would be the name of a field
  have hsegment : ("<root>".toList.splitOn '.').mapM Edge.read? = some [⟨"<root>", none⟩] := by
    cbv
  rw [hroot, hsegment, Option.some.injEq, List.cons.injEq] at hread
  exact (h edge List.mem_cons_self).ne_root (congrArg Edge.field hread.1).symm

/-- Reading the text of a path gives the path back. -/
theorem read?_render {path : Path} (h : ∀ edge ∈ path, PlainName edge.field) :
    read? path.render = some path := by
  cases path with
  | nil => rfl
  | cons edge rest => rw [read?, if_neg (render_ne_root h), mapM_read?_splitOn_render h]

/-- Two paths never have one text. -/
theorem render_inj {p q : Path} (hp : ∀ edge ∈ p, PlainName edge.field)
    (hq : ∀ edge ∈ q, PlainName edge.field) (h : p.render = q.render) : p = q := by
  have hread := read?_render hp
  rw [h, read?_render hq] at hread
  exact (Option.some.inj hread).symm

end Path

/-! ## Plain names in a registry -/

/-- All fields that a registry lists have plain names. -/
def Registry.HasPlainNames (registry : Registry) : Prop :=
  ∀ name keys, registry.keys? name = some keys → ∀ key ∈ keys, PlainName key

instance (name : String) : Decidable (PlainName name) :=
  decidable_of_iff
    (name ≠ "" ∧ '.' ∉ name.toList ∧ '[' ∉ name.toList ∧ name ≠ "<root>")
    ⟨fun h => ⟨h.1, h.2.1, h.2.2.1, h.2.2.2⟩, fun h => ⟨h.1, h.2, h.3, h.4⟩⟩

theorem NodeType.plain_childKeys (t : NodeType) : ∀ key ∈ t.childKeys, PlainName key := by
  cases t <;> decide

/-- A registry has plain names only if its extension entries have. -/
theorem Registry.hasPlainNames_of_extensions {registry : Registry}
    (h : ∀ entry ∈ registry.extensions.entries, ∀ key ∈ entry.2, PlainName key) :
    registry.HasPlainNames := by
  intro name keys hkeys
  obtain ⟨entry, hentry, rfl⟩ := Option.map_eq_some_iff.1 hkeys
  unfold entry? at hentry
  split at hentry
  · rename_i keys hextension
    cases hentry
    exact h (name, keys) (Bindings.mem_of_get? hextension)
  · obtain ⟨t, -, rfl⟩ := Option.map_eq_some_iff.1 hentry
    exact t.plain_childKeys

end SyntaxWalk
