import SyntaxWalk.Json.Basic

/-!
# Writing JSON

Two layouts of a JSON value. The compact one has no blanks at all. The indented one puts each item and
each member on a line of its own, two blanks deeper than its container, and a blank after the colon; an
empty container stays on one line. In strings only the quote, the backslash and the control characters
below U+0020 are escaped.
-/

set_option autoImplicit false

namespace SyntaxWalk.Json

/-- The lower-case hexadecimal digit of a number below sixteen. -/
def hexDigit (n : Nat) : Char :=
  if n < 10 then Char.ofNat ('0'.toNat + n) else Char.ofNat ('a'.toNat + (n - 10))

/-- A character as it stands inside a quoted string. -/
def escapeChar (c : Char) : List Char :=
  match c with
  | '"' => ['\\', '"']
  | '\\' => ['\\', '\\']
  | '\n' => ['\\', 'n']
  | '\r' => ['\\', 'r']
  | '\t' => ['\\', 't']
  | _ =>
    if c.toNat = 0x08 then ['\\', 'b']
    else if c.toNat = 0x0C then ['\\', 'f']
    else if c.toNat < 0x20 then
      ['\\', 'u', '0', '0', hexDigit (c.toNat / 16), hexDigit (c.toNat % 16)]
    else [c]

/-- A text in quotes. -/
def quote (s : String) : String :=
  String.ofList ('"' :: s.toList.flatMap escapeChar ++ ['"'])

mutual

/-- The compact text of a value. -/
def compact : Json → String
  | null => "null"
  | bool true => "true"
  | bool false => "false"
  | number n => n.text
  | string s => quote s
  | array items => "[" ++ ",".intercalate (compactItems items) ++ "]"
  | object members => "\x7b" ++ ",".intercalate (compactMembers members) ++ "\x7d"

/-- The compact texts of the items of an array. -/
def compactItems : List Json → List String
  | [] => []
  | item :: rest => compact item :: compactItems rest

/-- The compact texts of the members of an object. -/
def compactMembers : List (String × Json) → List String
  | [] => []
  | (name, value) :: rest => (quote name ++ ":" ++ compact value) :: compactMembers rest

end

/-- The start of a line at the given depth. -/
def newline (depth : Nat) : String :=
  String.ofList ('\n' :: List.replicate (2 * depth) ' ')

/-- The parts of a container, each on its own line one level deeper. -/
def indentParts (depth : Nat) (opening closing : String) (parts : List String) : String :=
  if parts.isEmpty then opening ++ closing
  else
    opening ++ newline (depth + 1) ++ ("," ++ newline (depth + 1)).intercalate parts ++
      newline depth ++ closing

mutual

/-- The indented text of a value that stands at the given depth. -/
def indentAt (depth : Nat) : Json → String
  | array items => indentParts depth "[" "]" (indentItems (depth + 1) items)
  | object members => indentParts depth "\x7b" "\x7d" (indentMembers (depth + 1) members)
  | null => "null"
  | bool true => "true"
  | bool false => "false"
  | number n => n.text
  | string s => quote s

/-- The indented texts of the items of an array. -/
def indentItems (depth : Nat) : List Json → List String
  | [] => []
  | item :: rest => indentAt depth item :: indentItems depth rest

/-- The indented texts of the members of an object. -/
def indentMembers (depth : Nat) : List (String × Json) → List String
  | [] => []
  | (name, value) :: rest =>
    (quote name ++ ": " ++ indentAt depth value) :: indentMembers depth rest

end

/-- The indented text of a value. -/
def indented (value : Json) : String :=
  indentAt 0 value

end SyntaxWalk.Json
