import SyntaxWalk.NameMap
import SyntaxWalk.Number.Literal

/-!
# JSON values

A JSON value in the form in which the walk and the settings use it. The members of an object are
bindings of names; the readers of this library keep them sorted by name and without repetition, so that
the order in which a text lists them never shows.
-/

set_option autoImplicit false

namespace SyntaxWalk

/-- A JSON value. -/
inductive Json where
  | null
  | bool (b : Bool)
  | number (n : Number)
  | string (s : String)
  | array (items : List Json)
  | object (members : List (String × Json))

namespace Json

instance : Inhabited Json := ⟨null⟩

/-- The member of an object with the given name. -/
def get? (name : String) : Json → Option Json
  | object members => Bindings.get? name members
  | _ => none

/-- A natural number as a JSON value. -/
def ofNat (n : Nat) : Json :=
  number (.int n)

/-- A list of texts as a JSON value. -/
def ofStrings (texts : List String) : Json :=
  array (texts.map string)

/-- The text of a JSON string. -/
def string? : Json → Option String
  | string s => some s
  | _ => none

/-- The texts of an array of JSON strings. -/
def strings? : Json → Option (List String)
  | array items => items.mapM string?
  | _ => none

/-- The name by which a value chooses one of several named alternatives: either the name itself, or an
object whose only member has that name and the value null. -/
def choice? : Json → Option String
  | string name => some name
  | object [(name, null)] => some name
  | _ => none

/-! ## Members and items are smaller -/

/-- A bound value is smaller than the bindings. -/
theorem sizeOf_get?_lt {name : String} {members : Bindings Json} {value : Json}
    (h : Bindings.get? name members = some value) : sizeOf value < sizeOf members := by
  induction members with
  | nil => simp [Bindings.get?] at h
  | cons first rest ih =>
    rcases first with ⟨key, held⟩
    simp only [Bindings.get?] at h
    split at h
    · cases h
      simp only [List.cons.sizeOf_spec, Prod.mk.sizeOf_spec]
      omega
    · have := ih h
      simp only [List.cons.sizeOf_spec]
      omega

theorem sizeOf_member_lt {name : String} {node value : Json} (h : node.get? name = some value) :
    sizeOf value < sizeOf node := by
  cases node with
  | object members =>
    have := sizeOf_get?_lt h
    simp only [object.sizeOf_spec]
    omega
  | _ => simp [get?] at h

theorem sizeOf_item_lt {item : Json} {items : List Json} (h : item ∈ items) :
    sizeOf item < sizeOf (array items) := by
  have := List.sizeOf_lt_of_mem h
  simp only [array.sizeOf_spec]
  omega

end Json

end SyntaxWalk
