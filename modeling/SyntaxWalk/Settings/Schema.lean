import SyntaxWalk.Json.Printer

/-!
# The schema of a settings file

A settings file has to be an object with no other members than `$schema`, `unknownTypes`, `maxDepth` and
`keys`, each of its own form. The first violation is reported: of the form of a value before that of its
parts, of members in the order of their names, of items in the order of their indices.

A check looks at a value and at the place where it stands, and gives the first violation it finds.
-/

set_option autoImplicit false

namespace SyntaxWalk

/-- The kinds of values that the schema asks for. -/
inductive Kind where
  | object
  | array
  | string
  /-- A number without a fraction, of either kind of numbers. -/
  | integer
  deriving DecidableEq

namespace Kind

/-- The name of a kind. -/
def name : Kind → String
  | object => "object"
  | array => "array"
  | string => "string"
  | integer => "integer"

/-- Is the value of this kind? -/
def admits : Kind → Json → Bool
  | object, .object _ => true
  | array, .array _ => true
  | string, .string _ => true
  | integer, .number n => n.isWhole
  | _, _ => false

end Kind

/-- A way in which a value breaks the schema. -/
inductive Breach where
  /-- The value is of another kind. -/
  | kind (value : Json) (expected : Kind)
  /-- The value is none of the allowed strings. -/
  | choice (value : Json) (allowed : List String)
  /-- The number is too small. -/
  | minimum (value : Json) (least : Nat)
  /-- The string is empty. -/
  | blank (value : Json)
  /-- The object has a member of this name, which is not allowed. -/
  | member (name : String)

/-- A breach and the place of the value, as the names and indices that lead to it from the root. -/
structure Violation where
  breach : Breach
  place : List String

namespace Breach

/-- Alternatives in quotes. -/
def alternatives (allowed : List String) : String :=
  " or ".intercalate (allowed.map Json.quote)

/-- The wording of a breach. -/
def message : Breach → String
  | kind value expected => value.compact ++ " is not of type " ++ Json.quote expected.name
  | choice value allowed => value.compact ++ " is not one of " ++ alternatives allowed
  | minimum value least => value.compact ++ " is less than the minimum of " ++ toString least
  | blank value => value.compact ++ " is shorter than 1 character"
  | member name => "Additional properties are not allowed ('" ++ name ++ "' was unexpected)"

end Breach

namespace Violation

/-- A name as part of a pointer: the tilde and the slash are escaped. -/
def escape (name : String) : String :=
  String.ofList (name.toList.flatMap fun c =>
    if c = '~' then ['~', '0'] else if c = '/' then ['~', '1'] else [c])

/-- The pointer to a place; that to the root is empty. -/
def pointer (place : List String) : String :=
  String.join (place.map fun name => "/" ++ escape name)

/-- The wording of a violation. -/
def message (violation : Violation) : String :=
  violation.breach.message ++ " at " ++ pointer violation.place

end Violation

/-- Looks at a value that stands at a place and gives the first violation. -/
abbrev Check := Json → List String → Option Violation

namespace Check

/-- The value has to be of a kind; then a further check looks at it. -/
def ofKind (expected : Kind) (further : Check) : Check := fun value place =>
  if expected.admits value then further value place else some ⟨.kind value expected, place⟩

/-- Everything is right. -/
def pass : Check := fun _ _ => none

/-- The value has to be one of the given strings. -/
def oneOf (allowed : List String) : Check := fun value place =>
  match value.string? with
  | some s => if s ∈ allowed then none else some ⟨.choice value allowed, place⟩
  | none => some ⟨.choice value allowed, place⟩

/-- A number has to be at least the given one. -/
def atLeast (least : Nat) : Check
  | .number n, place =>
    if n.atLeast least then none else some ⟨.minimum (.number n) least, place⟩
  | _, _ => none

/-- A string has to have at least one character. -/
def nonempty : Check
  | .string s, place => if s = "" then some ⟨.blank (.string s), place⟩ else none
  | _, _ => none

/-- The first violation among the items of an array, the first of which has the given index. -/
def itemsFrom (check : Check) (index : Nat) (place : List String) : List Json → Option Violation
  | [] => none
  | item :: rest =>
    match check item (place ++ [toString index]) with
    | some violation => some violation
    | none => itemsFrom check (index + 1) place rest

/-- Every item of an array has to pass. -/
def items (check : Check) : Check
  | .array items, place => itemsFrom check 0 place items
  | _, _ => none

/-- The first violation among the members of an object. A name for which there is no check is not
allowed. -/
def membersIn (check? : String → Option Check) (place : List String) :
    List (String × Json) → Option Violation
  | [] => none
  | (name, value) :: rest =>
    match check? name with
    | none => some ⟨.member name, place⟩
    | some check =>
      match check value (place ++ [name]) with
      | some violation => some violation
      | none => membersIn check? place rest

/-- Every member of an object has to be allowed and to pass. -/
def members (check? : String → Option Check) : Check
  | .object members, place => membersIn check? place members
  | _, _ => none

end Check

namespace Schema

/-- The fields of a type: an array of non-empty strings. -/
def fields : Check :=
  .ofKind .array (.items (.ofKind .string .nonempty))

/-- The checks of the members of a settings file. -/
def member? : String → Option Check
  | "$schema" => some (.ofKind .string .pass)
  | "unknownTypes" => some (.ofKind .string (.oneOf ["strict", "lenient"]))
  | "maxDepth" => some (.ofKind .integer (.atLeast 1))
  | "keys" => some (.ofKind .object (.members fun _ => some fields))
  | _ => none

/-- The check of a whole settings file. -/
def settings : Check :=
  .ofKind .object (.members member?)

end Schema

end SyntaxWalk
