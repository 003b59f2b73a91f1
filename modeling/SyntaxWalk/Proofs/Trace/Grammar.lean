import Mathlib
import SyntaxWalk.Proofs.Trace.RoundTrip

/-!
# The grammar of trace texts

Reading a trace trims each line, splits it at the first ` - ` and trims the parts again. What this accepts is
said here without these operations: a line is blank, or it spells an event (`Event.SpelledBy`), with blank
characters allowed at its ends, behind the phase and before the type, and one space on either side of the dash.

A line is read as an event exactly if it spells the event (`Event.ofLine?_trim_iff`). One line more has one of
three effects on the reading of lines (`Trace.ofLines_of_allBlank`, `Trace.ofLines_of_spelledBy`,
`Trace.ofLines_of_not_acceptable`), from which the accepted texts, the events that are read and the error that is
reported follow by induction over the lines (`Trace.parse_grammar`).
-/

set_option autoImplicit false

namespace SyntaxWalk

open Text

/-! ## Lines that spell an event -/

theorem Phase.name_of_ofName? {name : String} {phase : Phase} (h : ofName? name = some phase) :
    phase.name = name := by
  rw [ofName?.eq_def] at h
  split at h
  · cases h
    rfl
  · cases h
    rfl
  · cases h

theorem Phase.dash_notMem_name (phase : Phase) : '-' ∉ phase.name.toList := by
  cases phase with
  | enter => decide
  | leave => decide

namespace Event

/-- A line that spells an event: the name of the phase, a dash between two spaces and the type, which is a word.
Blank characters may stand at both ends, before the first space and behind the second. -/
structure SpelledBy (event : Event) (line : List Char) : Prop where
  word : IsWord event.nodeType.toList
  form : ∃ before gap space after, AllBlank before ∧ AllBlank gap ∧ AllBlank space ∧ AllBlank after ∧
    line = before ++ event.phase.name.toList ++ gap ++ [' ', '-', ' '] ++ space ++
      event.nodeType.toList ++ after

/-- A line that spells an event, trimmed, is split where its dash stands. -/
theorem SpelledBy.split_trim {event : Event} {line : List Char} (h : event.SpelledBy line) :
    ∃ gap space, AllBlank gap ∧ AllBlank space ∧
      splitAtFirst? separator (trim line) =
        some (event.phase.name.toList ++ gap, space ++ event.nodeType.toList) := by
  have hphase := event.phase.isWord_name
  obtain ⟨before, gap, space, after, hbefore, hgap, hspace, hafter, rfl⟩ := h.form
  refine ⟨gap, space, hgap, hspace, ?_⟩
  have htrims : Trims (before ++ event.phase.name.toList ++ gap ++ [' ', '-', ' '] ++ space ++
      event.nodeType.toList ++ after)
      (event.phase.name.toList ++ gap ++ (separator ++ (space ++ event.nodeType.toList))) := by
    refine ⟨⟨before, after, hbefore, hafter, by simp [separator]⟩, ?_, ?_⟩
    · rw [List.append_assoc, List.head?_append_of_ne_nil _ hphase.ne_nil]
      exact hphase.head
    · rw [List.getLast?_append_of_ne_nil _ (by simp [separator]),
        List.getLast?_append_of_ne_nil _ (by simp [h.word.ne_nil]),
        List.getLast?_append_of_ne_nil _ h.word.ne_nil]
      exact h.word.last
  -- blank characters and letters stand before the dash, and no other dash
  have hdash : '-' ∉ event.phase.name.toList ++ gap := by
    rw [List.mem_append, not_or]
    refine ⟨event.phase.dash_notMem_name, fun hmem => ?_⟩
    exact absurd (hgap '-' hmem) (by decide)
  rw [htrims.trim_eq]
  exact splitAtFirst?_append_of_second [' '] _ hdash (by decide)

/-- A trimmed line is read as an event exactly if the line spells the event. -/
theorem ofLine?_trim_iff {event : Event} {line : List Char} :
    ofLine? (trim line) = some event ↔ event.SpelledBy line := by
  constructor
  · intro h
    have hword := isWord_of_ofLine? h
    obtain ⟨⟨left, right⟩, hsplit, hparts⟩ := Option.bind_eq_some_iff.1 h
    obtain ⟨phase, hphase, hname⟩ := Option.bind_eq_some_iff.1 hparts
    dsimp only at hname
    split at hname
    · cases hname
    · cases hname
      refine ⟨hword, ?_⟩
      -- the line and the two parts of it are put together again from what was trimmed off
      obtain ⟨before, after, hbefore, hafter, hline⟩ := (trims_trim line).blanks
      obtain ⟨start, gap, hstart, hgap, hleft⟩ := (trims_trim left).blanks
      obtain ⟨space, rest, hspace, hrest, hright⟩ := (trims_trim right).blanks
      refine ⟨before ++ start, gap, space, rest ++ after, hbefore.append hstart, hgap, hspace,
        hrest.append hafter, ?_⟩
      have hname : phase.name.toList = trim left := by
        rw [Phase.name_of_ofName? hphase, String.toList_ofList]
      rw [hname, String.toList_ofList, hline, eq_of_splitAtFirst? hsplit]
      nth_rewrite 1 [hleft, hright]
      simp [separator]
  · intro h
    obtain ⟨gap, space, hgap, hspace, hsplit⟩ := h.split_trim
    have hleft : trim (event.phase.name.toList ++ gap) = event.phase.name.toList :=
      (event.phase.isWord_name.trims allBlank_nil hgap).trim_eq
    have hright : trim (space ++ event.nodeType.toList) = event.nodeType.toList := by
      have htrims := h.word.trims hspace allBlank_nil
      rw [List.append_nil] at htrims
      exact htrims.trim_eq
    have hword := (isWord_iff _).1 h.word
    rw [ofLine?, hsplit]
    simp only [Option.bind_eq_bind, Option.bind_some, hleft, hright, String.ofList_toList,
      Phase.ofName?_name, hword, Bool.false_eq_true, if_false]

theorem SpelledBy.unique {event other : Event} {line : List Char} (h : event.SpelledBy line)
    (hother : other.SpelledBy line) : event = other := by
  have hread := ofLine?_trim_iff.2 h
  rw [ofLine?_trim_iff.2 hother] at hread
  exact (Option.some.inj hread).symm

theorem SpelledBy.not_allBlank {event : Event} {line : List Char} (h : event.SpelledBy line) :
    ¬ AllBlank line := by
  intro hblank
  have hread := ofLine?_trim_iff.2 h
  rw [trim_eq_nil_iff.2 hblank] at hread
  cases hread

end Event

/-! ## The reading of lines -/

namespace Trace

/-- A line that is blank or spells an event. -/
def Acceptable (line : List Char) : Prop :=
  AllBlank line ∨ ∃ event : Event, event.SpelledBy line

section Lines

variable {line : List Char} (number : Nat) (rest : List (List Char))

/-- A blank line counts, and nothing else comes of it. -/
theorem ofLines_of_allBlank (h : AllBlank line) :
    ofLines number (line :: rest) = ofLines (number + 1) rest := by
  rw [ofLines, trim_eq_nil_iff.2 h]
  rfl

theorem isEmpty_trim (h : ¬ AllBlank line) : (trim line).isEmpty = false := by
  rw [List.isEmpty_eq_false_iff]
  exact fun hnil => h (trim_eq_nil_iff.1 hnil)

/-- The event that a line spells comes before those of the other lines. -/
theorem ofLines_of_spelledBy {event : Event} (h : event.SpelledBy line) :
    ofLines number (line :: rest) = (ofLines (number + 1) rest).map (event :: ·) := by
  rw [ofLines, Event.ofLine?_trim_iff.2 h, isEmpty_trim h.not_allBlank]
  dsimp only
  rw [if_neg Bool.false_ne_true]
  cases ofLines (number + 1) rest with
  | error error => rfl
  | ok trace => rfl

/-- What an acceptable line says comes before what the other lines say, be it an event or nothing. -/
theorem ofLines_of_acceptable (h : Acceptable line) :
    ∃ said : Trace, ∀ number rest,
      ofLines number (line :: rest) = (ofLines (number + 1) rest).map (said ++ ·) := by
  rcases h with hblank | ⟨event, hevent⟩
  · refine ⟨[], fun number rest => ?_⟩
    rw [ofLines_of_allBlank _ _ hblank]
    cases ofLines (number + 1) rest with
    | error error => rfl
    | ok trace => rfl
  · exact ⟨[event], fun number rest => ofLines_of_spelledBy number rest hevent⟩

/-- Any other line is the error, and the lines behind it are not looked at. -/
theorem ofLines_of_not_acceptable (h : ¬ Acceptable line) :
    ofLines number (line :: rest) = .error ⟨number, String.ofList (trim line)⟩ := by
  rw [Acceptable, not_or, not_exists] at h
  have hnone : Event.ofLine? (trim line) = none := by
    rw [Option.eq_none_iff_forall_ne_some]
    intro event hevent
    exact h.2 event (Event.ofLine?_trim_iff.1 hevent)
  rw [ofLines, hnone, isEmpty_trim h.1]
  rfl

end Lines

/-- The events that are read from lines are those that the lines spell, but for the blank ones. -/
theorem ofLines_eq_ok_iff (texts : List (List Char)) :
    ∀ (number : Nat) (trace : Trace), ofLines number texts = .ok trace ↔
      List.Forall₂ Event.SpelledBy trace (texts.filter fun line => ¬ AllBlank line) := by
  induction texts with
  | nil =>
    intro number trace
    rw [ofLines, List.filter_nil, List.forall₂_nil_right_iff, Except.ok.injEq, eq_comm]
  | cons line rest ih =>
    intro number trace
    by_cases hblank : AllBlank line
    · rw [ofLines_of_allBlank _ _ hblank, ih, List.filter_cons_of_neg (by simpa using hblank)]
    · rw [List.filter_cons_of_pos (by simpa using hblank), List.forall₂_cons_right_iff]
      by_cases hspelled : ∃ event : Event, event.SpelledBy line
      · obtain ⟨event, hevent⟩ := hspelled
        rw [ofLines_of_spelledBy _ _ hevent]
        constructor
        · intro h
          cases hrest : ofLines (number + 1) rest with
          | error error =>
            rw [hrest] at h
            cases h
          | ok others =>
            rw [hrest] at h
            cases h
            exact ⟨event, others, hevent, (ih _ _).1 hrest, rfl⟩
        · rintro ⟨other, others, hother, hothers, rfl⟩
          rw [(ih _ _).2 hothers, hevent.unique hother]
          rfl
      · -- a line that is neither makes an error
        have hnot : ¬ Acceptable line := not_or.2 ⟨hblank, hspelled⟩
        rw [ofLines_of_not_acceptable _ _ hnot]
        constructor
        · intro h
          cases h
        · rintro ⟨event, others, hevent, -, -⟩
          exact absurd ⟨event, hevent⟩ hspelled

/-- The error that is found in lines names the first line that is neither blank nor spells an event. -/
theorem ofLines_eq_error_iff (texts : List (List Char)) :
    ∀ (number : Nat) (error : TraceError), ofLines number texts = .error error ↔
      ∃ before line after, texts = before ++ line :: after ∧ (∀ earlier ∈ before, Acceptable earlier) ∧
        ¬ Acceptable line ∧ error.line = number + before.length ∧ Trims line error.text.toList := by
  induction texts with
  | nil =>
    intro number error
    simp [ofLines]
  | cons line rest ih =>
    intro number error
    by_cases hline : Acceptable line
    · -- behind such a line the error is that of the other lines
      have hskip : ofLines number (line :: rest) = .error error ↔
          ofLines (number + 1) rest = .error error := by
        obtain ⟨said, hsaid⟩ := ofLines_of_acceptable hline
        rw [hsaid]
        cases ofLines (number + 1) rest with
        | error other => exact Iff.rfl
        | ok others =>
          constructor
          · rintro ⟨⟩
          · rintro ⟨⟩
      rw [hskip, ih]
      constructor
      · rintro ⟨before, wrong, after, rfl, hbefore, hwrong, hnumber, htext⟩
        refine ⟨line :: before, wrong, after, rfl, List.forall_mem_cons.2 ⟨hline, hbefore⟩, hwrong, ?_,
          htext⟩
        rw [hnumber, List.length_cons]
        omega
      · rintro ⟨before, wrong, after, heq, hbefore, hwrong, hnumber, htext⟩
        cases before with
        | nil =>
          cases heq
          exact absurd hline hwrong
        | cons first before =>
          cases heq
          refine ⟨before, wrong, after, rfl, (List.forall_mem_cons.1 hbefore).2, hwrong, ?_, htext⟩
          rw [hnumber, List.length_cons]
          omega
    · rw [ofLines_of_not_acceptable _ _ hline]
      constructor
      · intro h
        cases h
        refine ⟨[], line, rest, rfl, List.forall_mem_nil _, hline, rfl, ?_⟩
        rw [String.toList_ofList]
        exact trims_trim line
      · rintro ⟨before, wrong, after, heq, hbefore, hwrong, hnumber, htext⟩
        cases before with
        | nil =>
          cases heq
          rw [htext.trim_eq, String.ofList_toList]
          rw [List.length_nil, Nat.add_zero] at hnumber
          rw [← hnumber]
        | cons first before =>
          cases heq
          exact absurd (hbefore _ List.mem_cons_self) hline

/-- Lines are read without an error exactly if each of them is blank or spells an event. -/
theorem exists_ofLines_eq_ok_iff (texts : List (List Char)) :
    ∀ number, (∃ trace, ofLines number texts = .ok trace) ↔ ∀ line ∈ texts, Acceptable line := by
  induction texts with
  | nil => simp [ofLines]
  | cons line rest ih =>
    intro number
    rw [List.forall_mem_cons, ← ih (number + 1)]
    by_cases hline : Acceptable line
    · obtain ⟨said, hsaid⟩ := ofLines_of_acceptable hline
      rw [hsaid]
      cases ofLines (number + 1) rest with
      | error error =>
        constructor
        · rintro ⟨trace, ⟨⟩⟩
        · rintro ⟨-, trace, ⟨⟩⟩
      | ok others => exact ⟨fun _ => ⟨hline, others, rfl⟩, fun _ => ⟨said ++ others, rfl⟩⟩
    · rw [ofLines_of_not_acceptable _ _ hline]
      constructor
      · rintro ⟨trace, ⟨⟩⟩
      · rintro ⟨hacceptable, -⟩
        exact absurd hacceptable hline

/-- The texts that are read as a trace. A text is taken apart into its lines at the line feeds, with the carriage
return just before a line feed, and each line has to be blank or to spell an event. The trace is then that of the
events that the lines spell, but for the blank lines. Otherwise the error is that of the first other line: its
number, counted from one over all lines, and its text without the blank characters at its ends. -/
theorem parse_grammar (text : String) :
    (∀ found, HasLines text.toList found ↔ found = lines text.toList) ∧
    ((∃ trace, parse text = .ok trace) ↔ ∀ line ∈ lines text.toList, Acceptable line) ∧
    (∀ trace, parse text = .ok trace ↔
      List.Forall₂ Event.SpelledBy trace ((lines text.toList).filter fun line => ¬ AllBlank line)) ∧
    ∀ error, parse text = .error error ↔
      ∃ before line after, lines text.toList = before ++ line :: after ∧
        (∀ earlier ∈ before, Acceptable earlier) ∧ ¬ Acceptable line ∧
        error.line = 1 + before.length ∧ Trims line error.text.toList := by
  refine ⟨fun found => hasLines_iff, ?_, ?_, ?_⟩
  · exact exists_ofLines_eq_ok_iff _ 1
  · exact ofLines_eq_ok_iff _ 1
  · exact ofLines_eq_error_iff _ 1

/-- Of the three lines the first spells an event between odd blanks, the second is blank, and the type in the third
is not a word. -/
example : parse "\u000b enter\u0085 - \ra-b\r\n\n\tenter - a - b" = .error ⟨3, "enter - a - b"⟩ := by
  cbv

end Trace

end SyntaxWalk
