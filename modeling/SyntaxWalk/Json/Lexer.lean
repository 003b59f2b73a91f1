import SyntaxWalk.Json.Assembly

/-!
# Lexers

A lexer is a rule that reads from the front of a text: a token, or something between tokens that is
passed over. Each reading takes at least one character, so repeating the rule comes to the end of every
text. The rule and this fact are kept together.
-/

set_option autoImplicit false

namespace SyntaxWalk.Json

/-- A rule that reads one token, or one piece of the space between tokens. -/
structure Lexer where
  /-- The token read, if it was one, and the rest of the text; `none` where no token can begin. -/
  next? : List Char → Option (Option Token × List Char)
  /-- Each reading shortens the text. -/
  shortens : ∀ {cs rest : List Char} {token : Option Token},
    next? cs = some (token, rest) → rest.length < cs.length

namespace Lexer

/-- Reads the tokens of a text, after those already read, which are given latest first. -/
def tokensAfter (lexer : Lexer) (read : List Token) (cs : List Char) : Option (List Token) :=
  if cs.isEmpty then some read.reverse
  else
    match _h : lexer.next? cs with
    | none => none
    | some (none, rest) => lexer.tokensAfter read rest
    | some (some token, rest) => lexer.tokensAfter (token :: read) rest
termination_by cs.length
decreasing_by
  · exact lexer.shortens _h
  · exact lexer.shortens _h

/-- The tokens of a text. -/
def tokens (lexer : Lexer) (text : String) : Option (List Token) :=
  lexer.tokensAfter [] text.toList

theorem tokensAfter_nil (lexer : Lexer) (read : List Token) :
    lexer.tokensAfter read [] = some read.reverse := by
  rw [tokensAfter]
  rfl

/-- What the rule reads comes before the rest of the text. -/
theorem tokensAfter_of_next (lexer : Lexer) (read : List Token) {cs rest : List Char}
    {token : Option Token} (h : lexer.next? cs = some (token, rest)) :
    lexer.tokensAfter read cs = lexer.tokensAfter (token.toList ++ read) rest := by
  cases cs with
  | nil => exact absurd (lexer.shortens h) (Nat.not_lt_zero _)
  | cons c cs =>
    rw [tokensAfter]
    simp only [List.isEmpty_cons, Bool.false_eq_true, if_false]
    split
    · rename_i hnone
      rw [h] at hnone
      cases hnone
    · rename_i hspace
      rw [h] at hspace
      cases hspace
      rfl
    · rename_i hfound
      rw [h] at hfound
      cases hfound
      rfl

end Lexer

/-- Reads a punctuation mark. -/
def punctuation? : Char → Option Token
  | '\x7b' => some .openBrace
  | '\x7d' => some .closeBrace
  | '[' => some .openBracket
  | ']' => some .closeBracket
  | ',' => some .comma
  | ':' => some .colon
  | _ => none

end SyntaxWalk.Json
