import SyntaxWalk.Json.Embedded
import SyntaxWalk.Json.Lexer
import SyntaxWalk.Json.Quoted

/-!
# Reading strict JSON

The standard JSON notation, with no limit on nesting. Blanks are the space, the tab, the line feed and
the carriage return. Control characters below U+0020 may not stand in a string, and a number beyond the
largest finite binary64 number is refused. Of two members with one name the later counts. A text may embed
further documents, in which nesting is limited.
-/

set_option autoImplicit false

namespace SyntaxWalk.Json

namespace Strict

/-- The blanks between tokens. -/
def isSpace (c : Char) : Bool :=
  c == ' ' || c == '\t' || c == '\n' || c == '\r'

/-- The characters that may stand unescaped in a string. -/
def isPlain (c : Char) : Bool :=
  0x20 ≤ c.toNat

/-- Reads an optional minus sign: is there one? -/
def takeMinus (cs : List Char) : Bool × List Char :=
  match cs with
  | '-' :: rest => (true, rest)
  | _ => (false, cs)

/-- Reads a number with its sign. -/
def takeNumber? (cs : List Char) : Option (Option Token × List Char) := do
  let (literal, rest) ← Literal.take? (takeMinus cs).1 (takeMinus cs).2
  let value ← literal.toNumber?
  return (some (.number "" (.number value)), rest)

/-- Reads one of the words that stand for a value. -/
def takeConstant? (cs : List Char) : Option (Option Token × List Char) :=
  match cs with
  | 't' :: 'r' :: 'u' :: 'e' :: rest => some (some (.constant (.bool true)), rest)
  | 'f' :: 'a' :: 'l' :: 's' :: 'e' :: rest => some (some (.constant (.bool false)), rest)
  | 'n' :: 'u' :: 'l' :: 'l' :: rest => some (some (.constant .null), rest)
  | _ => none

/-- Reads a blank, a punctuation mark, a string, a constant or a number. -/
def next? (cs : List Char) : Option (Option Token × List Char) :=
  match cs with
  | [] => none
  | c :: rest =>
    if isSpace c then some (none, rest)
    else match punctuation? c with
    | some mark => some (some mark, rest)
    | none =>
      if c = '"' then (takeQuoted? '"' isPlain [] rest).map fun found => (some (.string found.1), found.2)
      else if c.isAlpha then takeConstant? cs
      else takeNumber? cs

theorem length_takeMinus_le (cs : List Char) : (takeMinus cs).2.length ≤ cs.length := by
  unfold takeMinus
  split
  · exact Nat.le_succ _
  · exact Nat.le_refl _

theorem length_takeNumber?_lt {cs rest : List Char} {token : Option Token}
    (h : takeNumber? cs = some (token, rest)) : rest.length < cs.length := by
  simp only [takeNumber?, Option.bind_eq_bind, Option.bind_eq_some_iff, Option.pure_def,
    Option.some.injEq, Prod.mk.injEq] at h
  obtain ⟨⟨literal, after⟩, hread, value, -, -, rfl⟩ := h
  exact Nat.lt_of_lt_of_le (Literal.length_take?_lt hread) (length_takeMinus_le cs)

theorem length_takeConstant?_lt {cs rest : List Char} {token : Option Token}
    (h : takeConstant? cs = some (token, rest)) : rest.length < cs.length := by
  unfold takeConstant? at h
  split at h
  all_goals
    simp only [Option.some.injEq, Prod.mk.injEq, reduceCtorEq] at h
    try (rw [← h.2]; simp only [List.length_cons]; omega)

/-- Each reading shortens the text. -/
theorem length_next?_lt {cs rest : List Char} {token : Option Token}
    (h : next? cs = some (token, rest)) : rest.length < cs.length := by
  unfold next? at h
  split at h
  · simp at h
  · rename_i c after
    split at h
    · simp only [Option.some.injEq, Prod.mk.injEq] at h
      rw [← h.2]
      exact Nat.lt_succ_self _
    · split at h
      · simp only [Option.some.injEq, Prod.mk.injEq] at h
        rw [← h.2]
        exact Nat.lt_succ_self _
      · split at h
        · obtain ⟨found, hfound, hpair⟩ := Option.map_eq_some_iff.1 h
          have hlt := length_takeQuoted?_lt hfound
          simp only [Prod.mk.injEq] at hpair
          rw [hpair.2] at hlt
          exact Nat.lt_succ_of_lt hlt
        · split at h
          · exact length_takeConstant?_lt h
          · exact length_takeNumber?_lt h

/-- The lexer of the strict notation. -/
def lexer : Lexer :=
  ⟨next?, length_next?_lt⟩

end Strict

/-- The value of a document, if its tokens satisfy `admits`. An embedded document is shorter than the text
around it, in which it stands in quotes; asking for that makes the reading end. -/
def parseIf? (admits : List Token → Bool) (text : String) : Option Json := do
  let tokens ← Strict.lexer.tokens text
  if admits tokens then
    let expanded ← Embedded.expand (fun document =>
      if _h : document.length < text.length then
        parseIf? (Embedded.nestsWithin Embedded.maxNesting 0) document
      else none) tokens
    assemble .strict expanded
  else none
termination_by text.length
decreasing_by exact _h

/-- The value that a strict JSON text spells out, or `none` if it is not such a text. -/
def parse? (text : String) : Option Json :=
  parseIf? (fun _ => true) text

end SyntaxWalk.Json
