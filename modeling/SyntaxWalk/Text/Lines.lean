/-!
# Lines and separators

A line ends at a line feed, and one carriage return just before the line feed belongs to the line end.
There is no line after a final line feed. A lone carriage return is an ordinary character.
-/

set_option autoImplicit false

namespace SyntaxWalk.Text

/-- Puts a character in front of the first line, opening one if there is none. -/
def consToFirst (c : Char) : List (List Char) → List (List Char)
  | [] => [[c]]
  | line :: rest => (c :: line) :: rest

/-- The lines of a text. -/
def lines : List Char → List (List Char)
  | [] => []
  | '\n' :: cs => [] :: lines cs
  | '\r' :: '\n' :: cs => [] :: lines cs
  | c :: cs => consToFirst c (lines cs)

/-- The text after a given beginning, or `none` if the text does not begin so. -/
def afterStart? : List Char → List Char → Option (List Char)
  | [], cs => some cs
  | _ :: _, [] => none
  | p :: ps, c :: cs => if p = c then afterStart? ps cs else none

/-- Splits a text around the first occurrence of a separator. -/
def splitAtFirst? (separator : List Char) : List Char → Option (List Char × List Char)
  | [] => (afterStart? separator []).map fun rest => ([], rest)
  | c :: cs =>
    match afterStart? separator (c :: cs) with
    | some rest => some ([], rest)
    | none => (splitAtFirst? separator cs).map fun parts => (c :: parts.1, parts.2)

end SyntaxWalk.Text
