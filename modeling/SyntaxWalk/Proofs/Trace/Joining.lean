import Mathlib
import SyntaxWalk.Proofs.Trace.Grammar

/-!
# Joined trace texts

Two texts with a line feed between them are read as one text. The lines come one behind the other
(`Text.lines_joined`), and lines are read from left to right, so that the second text is looked at only if the
first one is read without an error (`ofLines_append`). The number of the first line is all that reading knows of
the lines before, and it moves the number in an error and nothing else (`ofLines_add`).

What remains is the seam. The line feed behind the first text may end an empty line or come behind a carriage
return; either way it makes blank characters blank or absent, and the events are the same
(`ofLines_lines_feed`). So the trace of the joined text is the joined trace (`parse_joined`).
-/

set_option autoImplicit false

namespace SyntaxWalk

open Text

/-- The same error, found so many lines further down. -/
def TraceError.shift (count : Nat) (error : TraceError) : TraceError :=
  { error with line := error.line + count }

namespace Trace

/-- What two runs of lines say: what the first says, if it is read, and then what the second says. -/
theorem ofLines_append (texts others : List (List Char)) :
    ∀ number, ofLines number (texts ++ others) =
      (ofLines number texts).bind fun first =>
        (ofLines (number + texts.length) others).map (first ++ ·) := by
  induction texts with
  | nil =>
    intro number
    rw [List.nil_append, ofLines, List.length_nil, Nat.add_zero]
    cases ofLines number others with
    | error error => rfl
    | ok trace => rfl
  | cons line rest ih =>
    intro number
    have hnumber : number + (line :: rest).length = number + 1 + rest.length := by
      rw [List.length_cons]
      omega
    rw [List.cons_append, hnumber]
    by_cases hline : Acceptable line
    · obtain ⟨said, hsaid⟩ := ofLines_of_acceptable hline
      rw [hsaid, hsaid, ih]
      cases ofLines (number + 1) rest with
      | error error => rfl
      | ok first =>
        cases ofLines (number + 1 + rest.length) others with
        | error error => rfl
        | ok second => exact congrArg Except.ok (List.append_assoc said first second).symm
    · -- the first line is the error of both
      rw [ofLines_of_not_acceptable _ _ hline, ofLines_of_not_acceptable _ _ hline]
      rfl

/-- Lines that are counted from further down give the same events, or the same error further down. -/
theorem ofLines_add (texts : List (List Char)) (count : Nat) :
    ∀ number, ofLines (number + count) texts = (ofLines number texts).mapError (TraceError.shift count) := by
  induction texts with
  | nil => exact fun _ => rfl
  | cons line rest ih =>
    intro number
    by_cases hline : Acceptable line
    · obtain ⟨said, hsaid⟩ := ofLines_of_acceptable hline
      rw [hsaid, hsaid, Nat.add_right_comm, ih]
      cases ofLines (number + 1) rest with
      | error error => rfl
      | ok trace => rfl
    · rw [ofLines_of_not_acceptable _ _ hline, ofLines_of_not_acceptable _ _ hline]
      rfl

/-- A line feed at the end of a text changes nothing. -/
theorem ofLines_lines_feed (text : List Char) :
    ∀ number, ofLines number (lines (text ++ ['\n'])) = ofLines number (lines text) := by
  induction text using feed_induction with
  | last line hline =>
    intro number
    rw [lines_append [] hline]
    cases line with
    | nil => rfl
    | cons c cs =>
      -- a carriage return at the end of the text goes with the line feed; before, it was a blank of the line
      rw [lines_of_notMem (List.cons_ne_nil c cs) hline, ofLines, trim_dropReturn]
      rfl
  | feed line rest hline ih =>
    intro number
    rw [List.append_assoc, List.cons_append, lines_append _ hline, lines_append _ hline, ofLines, ih, ofLines]

/-- Two texts with a line feed between them. If the first one cannot be read, its error is that of the joined
text. Otherwise an error of the second is found further down, by the line that the line feed ends and by one line
for each line feed in the first text; and if there is no error, the events of the second come behind those of the
first. -/
theorem parse_joined (text other : String) :
    parse (text ++ "\n" ++ other) =
      match parse text, parse other with
      | .error error, _ => .error error
      | .ok _, .error error => .error ⟨error.line + (1 + text.toList.count '\n'), error.text⟩
      | .ok first, .ok second => .ok (first ++ second) := by
  have hchars : (text ++ "\n" ++ other).toList = text.toList ++ '\n' :: other.toList := by
    rw [String.toList_append, String.toList_append, List.append_assoc]
    rfl
  rw [parse, hchars, lines_joined, ofLines_append, ofLines_lines_feed, length_lines_feed, ofLines_add]
  rw [← parse, ← parse]
  cases parse text with
  | error error => rfl
  | ok first =>
    cases parse other with
    | error error => rfl
    | ok second => rfl

-- A carriage return at the end of the first text belongs to the line end, and a line feed there makes a line.
example : parse ("enter - A\r" ++ "\n" ++ "leave - A") = .ok [⟨.enter, "A"⟩, ⟨.leave, "A"⟩] := by cbv

example : parse ("enter - A\n" ++ "\n" ++ "stay") = .error ⟨3, "stay"⟩ := by cbv

end Trace

end SyntaxWalk
