import SyntaxWalk.Json.Basic

/-!
# Assembling values from tokens

A value is put together from its tokens by a machine with a stack of open containers, one token at a
time, so that nesting is limited by nothing. Two grammars share it. In the strict grammar a comma stands
between two parts of a container and nowhere else, and a name is a string. In the relaxed grammar each
part may be followed by one comma, and a name may also be a word or the text of a number.
-/

set_option autoImplicit false

namespace SyntaxWalk.Json

/-- A token of a JSON text. -/
inductive Token where
  | openBrace
  | closeBrace
  | openBracket
  | closeBracket
  | comma
  | colon
  /-- A quoted string. -/
  | string (s : String)
  /-- One of the words `true`, `false` and `null`. -/
  | constant (value : Json)
  /-- A number: how it is written and what it stands for. -/
  | number (written : String) (value : Json)
  /-- A word without quotes. -/
  | word (s : String)

/-- Which texts count as a value. -/
inductive Grammar where
  | strict
  | relaxed
  deriving DecidableEq

/-- A container that is still open. -/
inductive Frame where
  /-- An array with its items so far, latest first. -/
  | array (items : List Json)
  /-- An object with its members so far. -/
  | object (members : Bindings Json)
  /-- An object with its members so far and the name of the member whose value comes next. -/
  | member (members : Bindings Json) (name : String)

/-- What the next token may be. -/
inductive Expected where
  /-- A value. -/
  | value
  /-- A value, or the end of the array. -/
  | item
  /-- A name. -/
  | name
  /-- A name, or the end of the object. -/
  | nameOrEnd
  /-- The colon after a name. -/
  | colon (name : String)
  /-- A comma or the end of the container. -/
  | separator
  /-- Nothing: the value is complete. -/
  | nothing (value : Json)

/-- The open containers, innermost first, and what may come next. -/
structure Assembly where
  frames : List Frame
  expected : Expected

namespace Assembly

/-- Before the first token. -/
def start : Assembly :=
  ⟨[], .value⟩

/-- Puts a complete value into the innermost open container. -/
def place (value : Json) : List Frame → Option Assembly
  | [] => some ⟨[], .nothing value⟩
  | .array items :: rest => some ⟨.array (value :: items) :: rest, .separator⟩
  | .member members name :: rest =>
    some ⟨.object (Bindings.set name value members) :: rest, .separator⟩
  | .object _ :: _ => none

/-- Takes a token at which a value begins. -/
def beginValue (frames : List Frame) : Token → Option Assembly
  | .openBrace => some ⟨.object [] :: frames, .nameOrEnd⟩
  | .openBracket => some ⟨.array [] :: frames, .item⟩
  | .string s => place (.string s) frames
  | .constant value => place value frames
  | .number _ value => place value frames
  | _ => none

/-- Takes a token that names a member. -/
def beginMember (grammar : Grammar) (frames : List Frame) : Token → Option Assembly
  | .string s => some ⟨frames, .colon s⟩
  | .word s => if grammar = .relaxed then some ⟨frames, .colon s⟩ else none
  | .number written _ => if grammar = .relaxed then some ⟨frames, .colon written⟩ else none
  | _ => none

/-- Takes the token that closes the innermost container. -/
def close : List Frame → Token → Option Assembly
  | .array items :: rest, .closeBracket => place (.array items.reverse) rest
  | .object members :: rest, .closeBrace => place (.object members) rest
  | _, _ => none

/-- What may follow a comma in the innermost container. -/
def afterComma (grammar : Grammar) : List Frame → Option Expected
  | .array _ :: _ => some (if grammar = .relaxed then .item else .value)
  | .object _ :: _ => some (if grammar = .relaxed then .nameOrEnd else .name)
  | _ => none

/-- Takes the next part of the innermost container without a comma before it. -/
def beginPart (grammar : Grammar) (frames : List Frame) (token : Token) : Option Assembly :=
  match frames with
  | .array _ :: _ => beginValue frames token
  | .object _ :: _ => beginMember grammar frames token
  | _ => none

/-- Takes one token. -/
def step (grammar : Grammar) (s : Assembly) (token : Token) : Option Assembly :=
  match s.expected, token with
  | .value, _ => beginValue s.frames token
  | .item, .closeBracket => close s.frames token
  | .item, _ => beginValue s.frames token
  | .name, _ => beginMember grammar s.frames token
  | .nameOrEnd, .closeBrace => close s.frames token
  | .nameOrEnd, _ => beginMember grammar s.frames token
  | .colon name, .colon =>
    match s.frames with
    | .object members :: rest => some ⟨.member members name :: rest, .value⟩
    | _ => none
  | .colon _, _ => none
  | .separator, .comma => (afterComma grammar s.frames).map fun expected => ⟨s.frames, expected⟩
  | .separator, .closeBracket => close s.frames token
  | .separator, .closeBrace => close s.frames token
  | .separator, _ => if grammar = .relaxed then beginPart grammar s.frames token else none
  | .nothing _, _ => none

/-- The complete value. -/
def value? (s : Assembly) : Option Json :=
  match s.expected with
  | .nothing value => some value
  | _ => none

end Assembly

/-- The value that a list of tokens spells out. -/
def assemble (grammar : Grammar) (tokens : List Token) : Option Json := do
  let s ← tokens.foldlM (Assembly.step grammar) Assembly.start
  s.value?

end SyntaxWalk.Json
