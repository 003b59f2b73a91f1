import SyntaxWalk.Json.Assembly

/-!
# Embedded documents

A JSON text may hold a whole document as the text of a string. An object whose first member has the
reserved name stands for the value of such a document: the member has to be a string, and the object may
have no other members. Where the reserved name is not the first, it is a name like any other.

The objects are found among the tokens, before a value is put together from them, and each is replaced by
the value it stands for. An object and a value that is given by one token may stand in the same places, so
the replacement does not change which texts are well formed.
-/

set_option autoImplicit false

namespace SyntaxWalk.Json.Embedded

/-- The reserved name. -/
def marker : String :=
  "$serde_json::private::RawValue"

/-- The greatest number of containers within one another in an embedded document. -/
def maxNesting : Nat := 127

/-- Are there at most `limit` containers within one another, if `depth` of them are already open? -/
def nestsWithin (limit depth : Nat) : List Token → Bool
  | [] => true
  | .openBrace :: rest => depth < limit && nestsWithin limit (depth + 1) rest
  | .openBracket :: rest => depth < limit && nestsWithin limit (depth + 1) rest
  | .closeBrace :: rest => nestsWithin limit (depth - 1) rest
  | .closeBracket :: rest => nestsWithin limit (depth - 1) rest
  | _ :: rest => nestsWithin limit depth rest

/-- Replaces the objects that stand for embedded documents, where `read` gives the value of a document.
The tokens already passed are given latest first. -/
def expandAfter (read : String → Option Json) (passed : List Token) :
    List Token → Option (List Token)
  | [] => some passed.reverse
  | .openBrace :: .string name :: rest =>
    if name = marker then
      match rest with
      | .colon :: .string document :: .closeBrace :: rest =>
        match read document with
        | none => none
        | some value => expandAfter read (.constant value :: passed) rest
      | _ => none
    else expandAfter read (.string name :: .openBrace :: passed) rest
  | token :: rest => expandAfter read (token :: passed) rest

/-- Replaces the objects that stand for embedded documents. -/
def expand (read : String → Option Json) (tokens : List Token) : Option (List Token) :=
  expandAfter read [] tokens

end SyntaxWalk.Json.Embedded
