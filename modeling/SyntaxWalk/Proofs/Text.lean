import Mathlib
import SyntaxWalk.Text.Blank
import SyntaxWalk.Text.Lines

/-!
# Words, lines and separators

What the text functions give back of texts that were put together: a word survives trimming
(`IsWord.trim_eq`), a text splits again around a separator that does not begin in its left part
(`splitAtFirst?_append`), and joined lines are found again (`lines_intercalate`). A line that ends in a line
feed loses the carriage return before it (`lines_append`).

Trimming and taking lines are also said without the functions. What trimming leaves stands between blank
characters and has none at its ends (`Trims`, `trims_trim`), and nothing else does (`Trims.trim_eq`); the lines of
a text are those of the relation `HasLines` (`hasLines_iff`).
-/

set_option autoImplicit false

namespace SyntaxWalk.Text

/-! ## Words -/

/-- A text that is not empty and holds no blank character. -/
structure IsWord (cs : List Char) : Prop where
  ne_nil : cs ≠ []
  no_blank : ∀ c ∈ cs, isBlank c = false

/-- The test for words. -/
theorem isWord_iff (cs : List Char) :
    IsWord cs ↔ (cs.isEmpty || cs.any isBlank) = false := by
  rw [Bool.or_eq_false_iff, List.isEmpty_eq_false_iff, List.any_eq_false]
  constructor
  · intro h
    refine ⟨h.ne_nil, fun c hc => ?_⟩
    rw [h.no_blank c hc]
    exact Bool.false_ne_true
  · rintro ⟨hne, hblank⟩
    exact ⟨hne, fun c hc => Bool.eq_false_iff.2 (hblank c hc)⟩

instance (cs : List Char) : Decidable (IsWord cs) :=
  decidable_of_iff _ (isWord_iff cs).symm

theorem trim_eq_self {cs : List Char} (hhead : ∀ c, cs.head? = some c → isBlank c = false)
    (hlast : ∀ c, cs.getLast? = some c → isBlank c = false) : trim cs = cs := by
  rw [trim, trimStart_eq_self hhead, trimEnd_eq_self hlast]

namespace IsWord

variable {cs : List Char}

theorem head (h : IsWord cs) : ∀ c, cs.head? = some c → isBlank c = false :=
  fun c hc => h.no_blank c (List.mem_of_mem_head? hc)

theorem last (h : IsWord cs) : ∀ c, cs.getLast? = some c → isBlank c = false :=
  fun c hc => h.no_blank c (List.mem_of_getLast? hc)

theorem trim_eq (h : IsWord cs) : trim cs = cs :=
  trim_eq_self h.head h.last

theorem ofList (h : IsWord cs) : IsWord (String.ofList cs).toList := by
  rw [String.toList_ofList]
  exact h

theorem notMem (h : IsWord cs) {c : Char} (hc : isBlank c = true) : c ∉ cs := by
  intro hmem
  rw [h.no_blank c hmem] at hc
  cases hc

end IsWord

/-! ## Blanks around a text -/

/-- A run of blank characters, which may be empty. -/
def AllBlank (cs : List Char) : Prop :=
  ∀ c ∈ cs, isBlank c = true

instance (cs : List Char) : Decidable (AllBlank cs) :=
  decidable_of_iff (cs.all isBlank = true) List.all_eq_true

theorem allBlank_nil : AllBlank [] :=
  List.forall_mem_nil _

theorem AllBlank.append {left right : List Char} (hleft : AllBlank left) (hright : AllBlank right) :
    AllBlank (left ++ right) := by
  intro c hc
  rcases List.mem_append.1 hc with hc | hc
  · exact hleft c hc
  · exact hright c hc

/-- A text consists of a core with no blank character at its ends and of blank characters around it. -/
structure Trims (cs core : List Char) : Prop where
  blanks : ∃ left right, AllBlank left ∧ AllBlank right ∧ cs = left ++ (core ++ right)
  head : ∀ c, core.head? = some c → isBlank c = false
  last : ∀ c, core.getLast? = some c → isBlank c = false

theorem trimStart_append {left : List Char} (h : AllBlank left) (cs : List Char) :
    trimStart (left ++ cs) = trimStart cs :=
  List.dropWhile_append_of_pos h

theorem trimEnd_append {right : List Char} (cs : List Char) (h : AllBlank right) :
    trimEnd (cs ++ right) = trimEnd cs := by
  have hreverse : AllBlank right.reverse := fun c hc => h c (List.mem_reverse.1 hc)
  rw [trimEnd, List.reverse_append, trimStart_append hreverse, trimEnd]

/-- Trimming leaves the core of a text. -/
theorem Trims.trim_eq {cs core : List Char} (h : Trims cs core) : trim cs = core := by
  obtain ⟨left, right, hleft, hright, rfl⟩ := h.blanks
  rw [trim, trimStart_append hleft]
  cases core with
  | nil =>
    -- the blanks on the right are at the start as well
    rw [List.nil_append, ← List.append_nil right, trimStart_append hright]
    rfl
  | cons c core =>
    have hhead : trimStart (c :: core ++ right) = c :: core ++ right := trimStart_eq_self h.head
    rw [hhead, trimEnd_append _ hright, trimEnd_eq_self h.last]

/-- What trimming leaves is the core of the text. -/
theorem trims_trim (cs : List Char) : Trims cs (trim cs) := by
  have hstart : ∀ text : List Char, text.takeWhile isBlank ++ trimStart text = text :=
    fun _ => List.takeWhile_append_dropWhile
  have hend : trimStart cs = trim cs ++ ((trimStart cs).reverse.takeWhile isBlank).reverse := by
    rw [trim, trimEnd, ← List.reverse_append, hstart, List.reverse_reverse]
  refine ⟨⟨cs.takeWhile isBlank, _, ?_, ?_, by rw [← hend, hstart]⟩, ?_, ?_⟩
  · exact fun c hc => List.mem_takeWhile_imp hc
  · exact fun c hc => List.mem_takeWhile_imp (List.mem_reverse.1 hc)
  · -- the first character of the core is the first that is not blank
    intro c hc
    apply @head?_trimStart cs
    rw [hend, List.head?_append, hc]
    rfl
  · intro c hc
    apply @head?_trimStart (trimStart cs).reverse
    rw [← hc, trim, trimEnd, List.getLast?_reverse]

/-- Trimming leaves nothing of blank characters, and something of any other text. -/
theorem trim_eq_nil_iff {cs : List Char} : trim cs = [] ↔ AllBlank cs := by
  constructor
  · intro h
    obtain ⟨left, right, hleft, hright, heq⟩ := (trims_trim cs).blanks
    rw [heq, h]
    exact hleft.append hright
  · intro h
    apply Trims.trim_eq
    exact ⟨⟨cs, [], h, allBlank_nil, (List.append_nil cs).symm⟩, nofun, nofun⟩

theorem IsWord.trims {word : List Char} (h : IsWord word) {left right : List Char}
    (hleft : AllBlank left) (hright : AllBlank right) : Trims (left ++ (word ++ right)) word :=
  ⟨⟨left, right, hleft, hright, rfl⟩, h.head, h.last⟩

/-! ## Separators -/

theorem afterStart?_append (start rest : List Char) : afterStart? start (start ++ rest) = some rest := by
  induction start with
  | nil => rfl
  | cons c cs ih =>
    rw [List.cons_append, afterStart?, if_pos rfl]
    exact ih

/-- A text splits around a separator that does not begin anywhere in the left part. -/
theorem splitAtFirst?_of_starts {separator left right : List Char}
    (h : ∀ before c after, left = before ++ c :: after →
      afterStart? separator (c :: (after ++ (separator ++ right))) = none) :
    splitAtFirst? separator (left ++ (separator ++ right)) = some (left, right) := by
  induction left with
  | nil =>
    have hstart := afterStart?_append separator right
    rw [List.nil_append]
    cases htext : separator ++ right with
    | nil =>
      rw [htext] at hstart
      rw [splitAtFirst?, hstart]
      rfl
    | cons c cs =>
      rw [htext] at hstart
      rw [splitAtFirst?, hstart]
  | cons c cs ih =>
    have hrest := ih fun before d after heq => h (c :: before) d after (by rw [heq]; rfl)
    rw [List.cons_append, splitAtFirst?, h [] c cs rfl, hrest]
    rfl

/-- A text splits around a separator whose first character does not stand in the left part. -/
theorem splitAtFirst?_append {first : Char} {left : List Char} (separator right : List Char)
    (h : first ∉ left) :
    splitAtFirst? (first :: separator) (left ++ (first :: separator ++ right)) =
      some (left, right) := by
  apply splitAtFirst?_of_starts
  intro before c after heq
  have hc : first ≠ c := by
    rintro rfl
    exact h (heq ▸ List.mem_append_right before List.mem_cons_self)
  rw [afterStart?, if_neg hc]

/-- A text splits around a separator whose second character stands neither in the left part nor first in the
separator. -/
theorem splitAtFirst?_append_of_second {first second : Char} {left : List Char}
    (separator right : List Char) (h : second ∉ left) (hne : second ≠ first) :
    splitAtFirst? (first :: second :: separator) (left ++ (first :: second :: separator ++ right)) =
      some (left, right) := by
  apply splitAtFirst?_of_starts
  intro before c after heq
  -- if the separator began in the left part, its second character would stand there or right behind it
  rw [afterStart?]
  split
  · cases after with
    | nil => rw [List.nil_append, List.cons_append, afterStart?, if_neg hne]
    | cons d after =>
      have hd : second ≠ d := by
        rintro rfl
        exact h (heq ▸ by simp)
      rw [List.cons_append, afterStart?, if_neg hd]
  · rfl

/-- A text with a given beginning is the beginning and what comes after it. -/
theorem eq_of_afterStart? {start cs rest : List Char} (h : afterStart? start cs = some rest) :
    cs = start ++ rest := by
  induction start generalizing cs with
  | nil =>
    cases h
    rfl
  | cons p ps ih =>
    cases cs with
    | nil => cases h
    | cons c cs =>
      rw [afterStart?] at h
      split at h
      · rename_i hpc
        rw [hpc, ih h, List.cons_append]
      · cases h

/-- A text that is split is its two parts with the separator between them. -/
theorem eq_of_splitAtFirst? {separator cs left right : List Char}
    (h : splitAtFirst? separator cs = some (left, right)) : cs = left ++ (separator ++ right) := by
  induction cs generalizing left with
  | nil =>
    obtain ⟨rest, hrest, hparts⟩ := Option.map_eq_some_iff.1 h
    cases hparts
    rw [List.nil_append]
    exact eq_of_afterStart? hrest
  | cons c cs ih =>
    rw [splitAtFirst?] at h
    split at h
    · rename_i rest hrest
      cases h
      rw [List.nil_append]
      exact eq_of_afterStart? hrest
    · obtain ⟨⟨before, after⟩, hparts, heq⟩ := Option.map_eq_some_iff.1 h
      cases heq
      rw [ih hparts, List.cons_append]

/-! ## Lines -/

/-- Induction over a text by its line feeds: a text without any, and a text behind the first one. -/
@[elab_as_elim]
theorem feed_induction {motive : List Char → Prop} (last : ∀ line, '\n' ∉ line → motive line)
    (feed : ∀ line rest, '\n' ∉ line → motive rest → motive (line ++ '\n' :: rest))
    (text : List Char) : motive text := by
  induction hlength : text.length using Nat.strongRecOn generalizing text with
  | ind length ih =>
    by_cases hmem : '\n' ∈ text
    · obtain ⟨line, rest, rfl, hline⟩ := List.eq_append_cons_of_mem hmem
      apply feed line rest hline
      exact ih rest.length (by simp at hlength; omega) rest rfl
    · exact last text hmem

/-- A line without the carriage return at its end. -/
def dropReturn : List Char → List Char
  | [] => []
  | c :: cs => if c = '\r' ∧ cs = [] then [] else c :: dropReturn cs

/-- A line that does not end in a carriage return is left as it is. -/
theorem dropReturn_eq_self {line : List Char} (h : line.getLast? ≠ some '\r') :
    dropReturn line = line := by
  induction line with
  | nil => rfl
  | cons c cs ih =>
    rw [dropReturn]
    cases cs with
    | nil =>
      have hc : c ≠ '\r' := by simpa using h
      simp [hc, dropReturn]
    | cons d ds =>
      rw [List.getLast?_cons_cons] at h
      rw [if_neg (by simp), ih h]

theorem dropReturn_append (line : List Char) : dropReturn (line ++ ['\r']) = line := by
  induction line with
  | nil => rfl
  | cons c cs ih => rw [List.cons_append, dropReturn, if_neg (by simp), ih]

/-- A line ends in a carriage return, which is dropped, or is left as it is. -/
theorem dropReturn_cases (line : List Char) :
    (line.getLast? ≠ some '\r' ∧ dropReturn line = line) ∨ line = dropReturn line ++ ['\r'] := by
  by_cases hlast : line.getLast? = some '\r'
  · obtain ⟨front, rfl⟩ := List.getLast?_eq_some_iff.1 hlast
    exact Or.inr (by rw [dropReturn_append])
  · exact Or.inl ⟨hlast, dropReturn_eq_self hlast⟩

/-- The carriage return at the end of a line is blank, so that trimming takes it off in any case. -/
theorem trim_dropReturn (line : List Char) : trim (dropReturn line) = trim line := by
  rcases dropReturn_cases line with ⟨-, hline⟩ | hline
  · rw [hline]
  · obtain ⟨left, right, hleft, hright, heq⟩ := (trims_trim (dropReturn line)).blanks
    have hreturn : AllBlank ['\r'] := by decide
    symm
    apply Trims.trim_eq
    refine ⟨⟨left, right ++ ['\r'], hleft, hright.append hreturn, ?_⟩, (trims_trim _).head,
      (trims_trim _).last⟩
    rw [← List.append_assoc, ← List.append_assoc, List.append_assoc left, ← heq]
    exact hline

/-- A character that ends no line stands in the line of the character after it. -/
theorem lines_cons {c : Char} {cs : List Char} (hfeed : c ≠ '\n')
    (hreturn : c = '\r' → cs.head? ≠ some '\n') : lines (c :: cs) = consToFirst c (lines cs) := by
  rw [lines]
  · exact hfeed
  · rintro rest rfl rfl
    exact hreturn rfl rfl

/-- A text up to a line feed is a line, without the carriage return before the line feed. -/
theorem lines_append {line : List Char} (rest : List Char) (h : '\n' ∉ line) :
    lines (line ++ '\n' :: rest) = dropReturn line :: lines rest := by
  induction line with
  | nil => rfl
  | cons c cs ih =>
    rw [List.mem_cons, not_or] at h
    obtain ⟨hc, hcs⟩ := h
    -- a carriage return counts as part of the line end only right before the line feed
    by_cases hend : c = '\r' ∧ cs = []
    · obtain ⟨rfl, rfl⟩ := hend
      rfl
    · have hcons : lines (c :: (cs ++ '\n' :: rest)) = consToFirst c (lines (cs ++ '\n' :: rest)) := by
        apply lines_cons (Ne.symm hc)
        intro hreturn hhead
        cases cs with
        | nil => exact hend ⟨hreturn, rfl⟩
        | cons d ds =>
          rw [List.cons_append, List.head?_cons, Option.some.injEq] at hhead
          exact hcs (hhead ▸ List.mem_cons_self)
      rw [List.cons_append, hcons, ih hcs, dropReturn, if_neg hend]
      rfl

/-- A text without line feeds is one line, unless it is empty. -/
theorem lines_of_notMem {line : List Char} (hne : line ≠ []) (h : '\n' ∉ line) :
    lines line = [line] := by
  induction line with
  | nil => exact absurd rfl hne
  | cons c cs ih =>
    rw [List.mem_cons, not_or] at h
    obtain ⟨hc, hcs⟩ := h
    have hcons : lines (c :: cs) = consToFirst c (lines cs) := by
      apply lines_cons (Ne.symm hc)
      intro _ hhead
      exact hcs (List.mem_of_mem_head? hhead)
    rw [hcons]
    cases cs with
    | nil => rfl
    | cons d ds =>
      rw [ih (List.cons_ne_nil d ds) hcs]
      rfl

/-- The lines of a text: each ends at a line feed, and a carriage return just before the line feed belongs to
the line end. What stands behind the last line feed is a line unless it is empty. -/
inductive HasLines : List Char → List (List Char) → Prop where
  | empty : HasLines [] []
  | last {line : List Char} (hne : line ≠ []) (hline : '\n' ∉ line) : HasLines line [line]
  | feed {line rest : List Char} {others : List (List Char)} (hline : '\n' ∉ line)
      (hreturn : line.getLast? ≠ some '\r') (hrest : HasLines rest others) :
      HasLines (line ++ '\n' :: rest) (line :: others)
  | returnFeed {line rest : List Char} {others : List (List Char)} (hline : '\n' ∉ line)
      (hrest : HasLines rest others) : HasLines (line ++ '\r' :: '\n' :: rest) (line :: others)

/-- A text has the lines that are taken from it. -/
theorem hasLines_lines (text : List Char) : HasLines text (lines text) := by
  induction text using feed_induction with
  | last line hline =>
    cases line with
    | nil => exact .empty
    | cons c cs =>
      rw [lines_of_notMem (List.cons_ne_nil c cs) hline]
      exact .last (List.cons_ne_nil c cs) hline
  | feed line rest hline ih =>
    rw [lines_append rest hline]
    rcases dropReturn_cases line with ⟨hreturn, heq⟩ | heq
    · rw [heq]
      exact .feed hline hreturn ih
    · have hdropped : '\n' ∉ dropReturn line := by
        intro hmem
        apply hline
        rw [heq]
        exact List.mem_append_left _ hmem
      have hlines := HasLines.returnFeed hdropped ih
      rwa [← List.singleton_append, ← List.append_assoc, ← heq] at hlines

/-- The lines of a text are those that are taken from it, and no others. -/
theorem hasLines_iff {text : List Char} {found : List (List Char)} :
    HasLines text found ↔ found = lines text := by
  constructor
  · intro h
    induction h with
    | empty => rfl
    | last hne hline => rw [lines_of_notMem hne hline]
    | feed hline hreturn hrest ih => rw [lines_append _ hline, dropReturn_eq_self hreturn, ih]
    | @returnFeed line rest others hline hrest ih =>
      have hfeed : '\n' ∉ line ++ ['\r'] := by simpa using hline
      have hlines := lines_append rest hfeed
      rw [List.append_assoc, List.singleton_append, dropReturn_append] at hlines
      rw [hlines, ih]
  · rintro rfl
    exact hasLines_lines text

/-- The lines of two texts with a line feed between them are those of the first, which the line feed ends, and
those of the second. -/
theorem lines_joined (left right : List Char) :
    lines (left ++ '\n' :: right) = lines (left ++ ['\n']) ++ lines right := by
  induction left using feed_induction with
  | last line hline =>
    rw [lines_append right hline, lines_append [] hline]
    rfl
  | feed line rest hline ih =>
    rw [List.append_assoc, List.append_assoc, List.cons_append, List.cons_append, lines_append _ hline,
      lines_append _ hline, ih, List.cons_append]

/-- A text that a line feed ends has as many lines as line feeds. -/
theorem length_lines_feed (text : List Char) :
    (lines (text ++ ['\n'])).length = 1 + text.count '\n' := by
  induction text using feed_induction with
  | last line hline =>
    rw [lines_append [] hline, List.count_eq_zero.2 hline]
    rfl
  | feed line rest hline ih =>
    rw [List.append_assoc, List.cons_append, lines_append _ hline, List.length_cons, ih, List.count_append,
      List.count_cons_self, List.count_eq_zero.2 hline]
    omega

/-- Lines joined by line feeds are found again, if none is empty and none holds a line end. -/
theorem lines_intercalate {texts : List (List Char)}
    (h : ∀ line ∈ texts, line ≠ [] ∧ '\n' ∉ line ∧ line.getLast? ≠ some '\r') :
    lines (['\n'].intercalate texts) = texts := by
  induction texts with
  | nil => rfl
  | cons line rest ih =>
    obtain ⟨⟨hne, hfeed, hreturn⟩, hrest⟩ := List.forall_mem_cons.1 h
    cases rest with
    | nil =>
      rw [List.intercalate_singleton]
      exact lines_of_notMem hne hfeed
    | cons next others =>
      rw [List.intercalate_cons_cons, List.append_assoc, List.singleton_append, lines_append _ hfeed,
        dropReturn_eq_self hreturn, ih hrest]

end SyntaxWalk.Text
