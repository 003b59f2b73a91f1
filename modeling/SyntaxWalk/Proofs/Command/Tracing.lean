import Mathlib
import SyntaxWalk.Command.Run
import SyntaxWalk.Proofs.Registry
import SyntaxWalk.Proofs.Trace.Json
import SyntaxWalk.Proofs.Walk.Recursion

/-!
# What the command that traces files prints

The command goes over its paths one after the other, and what comes of a path depends on nothing but the file
at it: its trace or its error (`FileAccess.traceOf`), by the rules that the settings and the options give
(`Settings.tracingWalker`). The report is made of these results and keeps their order. In the text format the
loop that prints the traces leaves the blocks of the traced files with empty lines between them
(`renderTraces_eq`) and the others are listed apart; in the JSON format the output, read back, is an array with one
entry for each path. The two formats show the same traces and the same errors, and the exit code tells whether
there is an error (`Invocation.run_trace`).
-/

set_option autoImplicit false

namespace SyntaxWalk

/-! ## Lines -/

/-- The text of lines that each end with a line feed. -/
def unlines (lines : List String) : String :=
  String.join (lines.map (· ++ "\n"))

@[simp] theorem unlines_nil : unlines [] = "" := rfl

@[simp] theorem unlines_cons (line : String) (lines : List String) :
    unlines (line :: lines) = line ++ "\n" ++ unlines lines := by
  simp [unlines]

@[simp] theorem unlines_append (lines more : List String) :
    unlines (lines ++ more) = unlines lines ++ unlines more := by
  simp [unlines]

/-- Lines that each end with a line feed are lines with line feeds between them and one more at the end. -/
theorem unlines_eq_intercalate {lines : List String} (h : lines ≠ []) :
    unlines lines = "\n".intercalate lines ++ "\n" := by
  induction lines with
  | nil => exact absurd rfl h
  | cons line rest ih =>
    cases rest with
    | nil => simp
    | cons next rest =>
      rw [unlines_cons, ih (List.cons_ne_nil _ _), String.intercalate_cons_cons]
      simp [String.append_assoc]

/-- The lines of a trace, each with its line feed, are its text and one more line feed, unless there are no
lines. -/
theorem unlines_trace (trace : Trace) :
    unlines (trace.map Event.line) = if trace.isEmpty then "" else trace.render ++ "\n" := by
  cases trace with
  | nil => rfl
  | cons event rest => exact unlines_eq_intercalate (List.cons_ne_nil _ _)

/-- A line feed between two blocks of lines is an empty line between them. -/
theorem intercalate_unlines (blocks : List (List String)) :
    "\n".intercalate (blocks.map unlines) = unlines ([""].intercalate blocks) := by
  induction blocks with
  | nil => rfl
  | cons block rest ih =>
    cases rest with
    | nil => simp
    | cons next rest =>
      rw [List.intercalate_cons_cons, unlines_append, ← ih]
      simp [String.intercalate_cons_cons]

/-! ## Results -/

/-- The rules by which files are traced under settings and options: the fields chosen in the settings stand over
the standard ones, the option for lenience makes the walk lenient and else the settings decide, and a limit among
the options counts in place of that of the settings. -/
def Settings.tracingWalker (settings : Settings) (lenient : Bool) (maxDepth : Option ℕ) : Walker where
  registry := ⟨settings.keys⟩
  unknownTypes := if lenient then .lenient else settings.unknownTypes
  maxDepth := maxDepth.or settings.maxDepth

/-- What comes of tracing the file at a path. -/
def FileAccess.traceOf (files : FileAccess Id) (complaint : String → String) (walker : Walker)
    (path : String) : Except FileError Trace :=
  match files.readText path with
  | .error error => .error (.unreadable error)
  | .ok text =>
    match Json.parse? text with
    | none => .error (.malformed (complaint text))
    | some tree => (Trace.ofTree walker tree).mapError .fault

/-- The paths that could be traced, with their traces. -/
def traced (result : String → Except FileError Trace) (paths : List String) : List (String × Trace) :=
  paths.filterMap fun path => (result path).toOption.map fun trace => (path, trace)

/-- The paths that could not be traced, with their errors. -/
def untraced (result : String → Except FileError Trace) (paths : List String) :
    List (String × FileError) :=
  paths.filterMap fun path =>
    match result path with
    | .ok _ => none
    | .error error => some (path, error)

/-- The lines printed for a traced file: those of its events, under a heading if there is more than one
path. -/
def blockLines (headings : Bool) (file : String × Trace) : List String :=
  (if headings then ["==> " ++ file.1 ++ " <=="] else []) ++ file.2.map Event.line

/-- The lines that count and name the files that could not be traced. -/
def failureLines (files : List (String × FileError)) : List String :=
  (toString files.length ++ " file(s) failed to trace:") ::
    files.map fun file => "  " ++ file.1 ++ ": " ++ file.2.message

/-- The JSON value describes what came of a path: it has the path and either the trace or the error, and no
other members. -/
inductive Describes (path : String) : Except FileError Trace → Json → Prop
  | traced (trace : Trace) (value : Json) (h : Trace.ofJson? value = some trace) :
    Describes path (.ok trace) (.object [("path", .string path), ("trace", value)])
  | failed (error : FileError) :
    Describes path (.error error) (.object [("error", .string error.message), ("path", .string path)])

/-- The report shows the results for the paths: all of them, in the order of the paths, and nothing else. -/
structure Report.Shows (report : Report) (format : Format) (paths : List String)
    (result : String → Except FileError Trace) : Prop where
  /-- In the text format the lines of the traced files are printed, with an empty line between two files and
  with headings if there is more than one path. -/
  text : format = .text → report.output =
    unlines ([""].intercalate ((traced result paths).map (blockLines (1 < paths.length))))
  /-- For a single path that is the text of the trace. -/
  single : format = .text → ∀ path trace, paths = [path] → result path = .ok trace →
    report.output = if trace.isEmpty then "" else trace.render ++ "\n"
  /-- The other files are listed apart, if there are any. -/
  failures : format = .text → report.failures =
    if (untraced result paths).isEmpty then none
    else some (unlines (failureLines (untraced result paths)))
  /-- In the JSON format the output is an array with one entry for each path. -/
  json : format = .json → ∃ entries, Json.parse? report.output = some (.array entries) ∧
    List.Forall₂ (fun path entry => Describes path (result path) entry) paths entries
  /-- The exit code tells whether some file could not be traced. -/
  code : report.code = if (untraced result paths).isEmpty then 0 else 1

namespace FileTrace

/-- The result for a file is that of its path. -/
theorem result_ofRead (files : FileAccess Id) (complaint : String → String) (walker : Walker) (path : String) :
    (ofRead complaint walker path (files.readText path)).result = files.traceOf complaint walker path := by
  simp only [FileAccess.traceOf, ofRead]
  cases files.readText path with
  | error error => rfl
  | ok text =>
    simp only [ofText, Trace.ofTree]
    cases Json.parse? text with
    | none => rfl
    | some tree =>
      simp only
      cases (Tracer.empty.record walker tree).result <;> rfl

theorem path_ofRead (complaint : String → String) (walker : Walker) (path : String)
    (content : Except ReadError String) : (ofRead complaint walker path content).path = path := by
  cases content <;> rfl

/-- The text printed for a file; nothing if it could not be traced. -/
def block? (headings : Bool) (file : FileTrace) : Option String :=
  file.result.toOption.map fun trace => unlines (blockLines headings (file.path, trace))

end FileTrace

/-! ## Printing -/

theorem intercalate_concat (blocks : List String) (block : String) :
    "\n".intercalate (blocks ++ [block]) =
      (if blocks.isEmpty then "" else "\n".intercalate blocks ++ "\n") ++ block := by
  cases blocks with
  | nil => simp
  | cons first rest =>
    rw [String.intercalate_append_of_ne_nil (List.cons_ne_nil _ _) (List.cons_ne_nil _ _)]
    simp

namespace Printing

theorem foldl_addEvent (trace : Trace) (out : String) :
    trace.foldl addEvent out = out ++ unlines (trace.map Event.line) := by
  induction trace generalizing out with
  | nil => simp
  | cons event rest ih =>
    rw [List.foldl_cons, ih, List.map_cons, unlines_cons, addEvent]
    simp only [String.append_assoc]

/-- The given blocks are printed so far, with an empty line between two of them. -/
structure Holds (printing : Printing) (blocks : List String) : Prop where
  out : printing.out = "\n".intercalate blocks
  /-- The next block is the first exactly if there are none. -/
  first : printing.first = blocks.isEmpty

/-- With headings, each traced file adds its block and the others add nothing. -/
theorem Holds.addFile {printing : Printing} {blocks : List String} (h : printing.Holds blocks)
    (file : FileTrace) :
    (printing.addFile true file).Holds (blocks ++ (file.block? true).toList) := by
  cases hresult : file.result with
  | error error => simpa [Printing.addFile, FileTrace.block?, hresult, Except.toOption] using h
  | ok trace =>
    have hblock : file.block? true = some ("==> " ++ file.path ++ " <==\n" ++ unlines (trace.map Event.line)) := by
      simp [FileTrace.block?, hresult, Except.toOption, blockLines, String.append_assoc]
    have hadded : printing.addFile true file = ⟨trace.foldl addEvent (printing.addHeading file.path), false⟩ := by
      rw [Printing.addFile, hresult]
      rfl
    rw [hadded, hblock]
    constructor
    · show trace.foldl addEvent (printing.addHeading file.path) = _
      rw [Option.toList_some, intercalate_concat, foldl_addEvent, addHeading, h.out, h.first]
      -- the empty line is there exactly if a block was printed before
      cases blocks with
      | nil => simp
      | cons first rest => simp [String.append_assoc]
    · simp

theorem Holds.foldl_addFile {printing : Printing} {blocks : List String} (h : printing.Holds blocks)
    (files : List FileTrace) :
    (files.foldl (Printing.addFile true) printing).Holds (blocks ++ files.filterMap (FileTrace.block? true)) := by
  induction files generalizing printing blocks with
  | nil => simpa using h
  | cons file rest ih =>
    have hrest := ih (h.addFile file)
    rw [List.append_assoc] at hrest
    cases hblock : file.block? true with
    | none => simpa [hblock] using hrest
    | some block => simpa [hblock] using hrest

end Printing

/-- What the loop prints are the blocks of the traced files, with an empty line between two of them. Without
headings there is only one file, so that no empty line is missing. -/
theorem renderTraces_eq (files : List FileTrace) :
    renderTraces files = "\n".intercalate (files.filterMap (FileTrace.block? (1 < files.length))) := by
  have hstart : Printing.Holds {} [] := ⟨rfl, rfl⟩
  match files with
  | [] => rfl
  | [file] =>
    cases hresult : file.result with
    | error error => simp [renderTraces, Printing.addFile, FileTrace.block?, hresult, Except.toOption]
    | ok trace =>
      simp [renderTraces, Printing.addFile, FileTrace.block?, hresult, Except.toOption, blockLines,
        Printing.foldl_addEvent]
  | first :: second :: rest =>
    have hmany : decide (1 < (first :: second :: rest).length) = true := by simp
    rw [renderTraces, hmany]
    exact (hstart.foldl_addFile (first :: second :: rest)).out

/-! ## Reports -/

section Reports

variable {result : String → Except FileError Trace} {file : String → FileTrace}
  (hresult : ∀ path, (file path).result = result path) (paths : List String)

include hresult

/-- Some file could not be traced exactly if the failure list is not empty. -/
theorem any_isFailure_map :
    (paths.map file).any FileTrace.isFailure = !(untraced result paths).isEmpty := by
  induction paths with
  | nil => rfl
  | cons path rest ih =>
    rw [List.map_cons, List.any_cons, ih, FileTrace.isFailure, hresult]
    cases hfirst : result path <;> simp [untraced, hfirst]

variable (hpath : ∀ path, (file path).path = path)

include hpath

/-- The printed traces are the lines of the traced files, with an empty line between two files. -/
theorem renderTraces_map :
    renderTraces (paths.map file) =
      unlines ([""].intercalate ((traced result paths).map (blockLines (1 < paths.length)))) := by
  rw [← intercalate_unlines, renderTraces_eq]
  simp only [List.length_map, List.filterMap_map, traced, List.map_filterMap, Function.comp_def,
    FileTrace.block?, hpath, hresult, Option.map_map]

/-- The failure list is absent if every file could be traced, and else counts and names the others. -/
theorem renderFailures?_map :
    renderFailures? (paths.map file) =
      if (untraced result paths).isEmpty then none
      else some (unlines (failureLines (untraced result paths))) := by
  have hlines : (paths.map file).filterMap FileTrace.failureLine? =
      (untraced result paths).map fun file => "  " ++ file.1 ++ ": " ++ file.2.message ++ "\n" := by
    simp only [List.filterMap_map, untraced, List.map_filterMap]
    apply List.filterMap_congr
    intro path _
    simp only [Function.comp_apply, FileTrace.failureLine?, hpath, hresult]
    cases result path <;> rfl
  simp only [renderFailures?, hlines, List.isEmpty_map, List.length_map]
  cases untraced result paths with
  | nil => rfl
  | cons first rest => simp [failureLines, unlines, String.append_assoc, Function.comp_def]

end Reports

/-! ## The JSON format -/

namespace FileTrace

theorem printable_toJson (file : FileTrace) : file.toJson.Printable := by
  cases hresult : file.result with
  | ok trace =>
    simp only [toJson, hresult]
    exact .pair (by decide) (by decide) (.string _) trace.printable_toJson
  | error error =>
    simp only [toJson, hresult]
    exact .pair (by decide) (by decide) (.string _) (.string _)

theorem describes_toJson (file : FileTrace) : Describes file.path file.result file.toJson := by
  cases hresult : file.result with
  | ok trace =>
    simp only [toJson, hresult]
    exact .traced trace _ trace.ofJson?_toJson
  | error error =>
    simp only [toJson, hresult]
    exact .failed error

end FileTrace

/-- The JSON output is read back as the array of the entries. -/
theorem parse?_renderJson (files : List FileTrace) :
    Json.parse? (renderJson files) = some (.array (files.map FileTrace.toJson)) := by
  apply Json.Printable.parse?_indented
  · apply Json.Printable.array
    intro item hitem
    obtain ⟨file, -, rfl⟩ := List.mem_map.1 hitem
    exact file.printable_toJson
  · simp [Json.Strict.isSpace]

/-! ## The command -/

namespace Command

/-- The files are traced one after the other, each from what is read at its path. -/
theorem traceFiles_eq (files : FileAccess Id) (complaint : String → String) (walker : Walker)
    (paths : List String) :
    traceFiles files complaint walker paths =
      paths.map fun path => FileTrace.ofRead complaint walker path (files.readText path) := by
  induction paths with
  | nil => rfl
  | cons path rest ih =>
    have hrest : traceFiles files complaint walker (path :: rest) =
        FileTrace.ofRead complaint walker path (files.readText path) ::
          traceFiles files complaint walker rest := rfl
    rw [hrest, ih, List.map_cons]

theorem walker_adjust (settings : Settings) (lenient : Bool) (maxDepth : Option ℕ) :
    (adjust settings lenient maxDepth).walker = settings.tracingWalker lenient maxDepth := by
  have hkeys : (adjust settings lenient maxDepth).keys = settings.keys := by
    cases lenient <;> cases maxDepth <;> rfl
  rw [Settings.walker, Settings.walkerOver, Settings.registry_eq, hkeys]
  cases lenient <;> cases maxDepth <;> rfl

end Command

namespace Invocation

variable {files : FileAccess Id} {complaints : Complaints} {invocation : Invocation} {settings : Settings}
  {logs : List Log}

/-- Once the settings are loaded, an invocation leaves behind what its command does under them, with more in the
log. -/
theorem run_of_load (hsettings : invocation.loadSettings files complaints = (.ok settings, logs)) :
    ∃ more, invocation.run files complaints =
      { (invocation.command.runUnder files complaints settings : Report) with logs := more } := by
  have hrun : invocation.run files complaints =
      (match invocation.loadSettings files complaints with
      | (.error error, logs) => { fatal := some (.settings error), logs }
      | (.ok settings, logs) =>
        let report : Report := invocation.command.runUnder files complaints settings
        { report with
          logs := logs ++ .registryBuilt settings.registry.extensions.size :: report.logs } : Report) := rfl
  rw [hrun, hsettings]
  exact ⟨_, rfl⟩

variable {paths : List String} {lenient : Bool} {format : Format} {maxDepth : Option ℕ}

/-- The report of an invocation that traces files. -/
theorem run_eq (hcommand : invocation.command = .trace paths lenient format maxDepth)
    (hsettings : invocation.loadSettings files complaints = (.ok settings, logs)) :
    ∃ more, invocation.run files complaints =
      { Command.reportTraces format (paths.map fun path => FileTrace.ofRead complaints.strict
          (settings.tracingWalker lenient maxDepth) path (files.readText path)) with
        logs := more } := by
  obtain ⟨more, hrun⟩ := run_of_load hsettings
  have hunder : Command.runUnder files complaints settings (.trace paths lenient format maxDepth) =
      Command.reportTraces format (Command.traceFiles files complaints.strict
        (Command.adjust settings lenient maxDepth).walker paths) := rfl
  rw [hcommand] at hrun
  simp only [hunder, Command.traceFiles_eq, Command.walker_adjust] at hrun
  exact ⟨more, hrun⟩

/-- Tracing files shows what comes of each of them alone, by the rules that the settings and the options of the
command give. -/
theorem run_trace (hcommand : invocation.command = .trace paths lenient format maxDepth)
    (hsettings : invocation.loadSettings files complaints = (.ok settings, logs)) :
    Report.Shows (invocation.run files complaints) format paths
      (files.traceOf complaints.strict (settings.tracingWalker lenient maxDepth)) := by
  obtain ⟨more, hrun⟩ := run_eq hcommand hsettings
  rw [hrun]
  generalize settings.tracingWalker lenient maxDepth = walker
  have hresult := FileTrace.result_ofRead files complaints.strict walker
  have hpath : ∀ path, (FileTrace.ofRead complaints.strict walker path (files.readText path)).path = path :=
    fun path => FileTrace.path_ofRead complaints.strict walker path _
  constructor
  · rintro rfl
    exact renderTraces_map hresult paths hpath
  · rintro rfl path trace rfl htrace
    show renderTraces _ = _
    have hblock : traced (files.traceOf complaints.strict walker) [path] = [(path, trace)] := by
      simp [traced, htrace, Except.toOption]
    rw [renderTraces_map hresult [path] hpath, hblock, ← unlines_trace]
    simp [blockLines]
  · rintro rfl
    exact renderFailures?_map hresult paths hpath
  · rintro rfl
    refine ⟨_, parse?_renderJson _, ?_⟩
    rw [List.map_map, List.forall₂_map_right_iff, List.forall₂_same]
    intro path _
    have hentry := (FileTrace.ofRead complaints.strict walker path (files.readText path)).describes_toJson
    rw [hpath, hresult] at hentry
    exact hentry
  · have hincomplete := any_isFailure_map hresult paths
    cases format <;> simp [Report.code, Command.reportTraces, hincomplete]

/-- A node of a type that is not standard. -/
def widget : Json :=
  .object [("type", .string "Widget")]

/-- A standard node with another below it. -/
def awaited : Json :=
  .object [("argument", .object [("type", .string "Super")]), ("type", .string "AwaitExpression")]

/-- The text of the first tree. -/
def widgetText : String :=
  "\x7b\n  \"type\": \"Widget\"\n\x7d"

/-- The text of the second tree. -/
def awaitedText : String :=
  "\x7b\n  \"argument\": \x7b\n    \"type\": \"Super\"\n  \x7d,\n  \"type\": \"AwaitExpression\"\n\x7d"

/-- Files with the two trees, and one whose text is no JSON. -/
def widgetFiles : FileAccess Id where
  read path :=
    if path = "widget" then .ok widgetText.toUTF8
    else if path = "await" then .ok awaitedText.toUTF8
    else if path = "torn" then .ok "?".toUTF8
    else .error .missing
  isFile _ := false

/-- The reader of a refused text repeats it. -/
def widgetComplaints : Complaints :=
  ⟨fun text => "unexpected " ++ text, id⟩

/-- The files are traced leniently, one of them twice, and nothing below a root may be entered. -/
def widgetInvocation (format : Format) : Invocation :=
  ⟨.trace ["gone", "widget", "torn", "await", "widget"] true format (some 0), none, false⟩

/-- The rules of the invocation. -/
def rootRules : Walker :=
  Settings.default.tracingWalker true (some 0)

theorem ofTree_widget : Trace.ofTree rootRules widget = .ok [⟨.enter, "Widget"⟩, ⟨.leave, "Widget"⟩] := by
  have hfound : rootRules.examine widget 0 ⟨none, []⟩ = .ok ⟨"Widget", [], false⟩ := by
    refine Walker.examine_eq_ok_iff.2 ⟨rfl, rfl, .inr ⟨?_, rfl, rfl, rfl⟩⟩
    decide
  have hvisit : rootRules.visit Tracer.visitor widget none .none [] (.start .empty) = _ :=
    Walker.visit_of_action hfound rfl (by decide)
  have hchildren : Walker.visitedChildren widget ⟨"Widget", [], false⟩ .proceed = [] := rfl
  have hroot : widget.isNull = false := rfl
  simp only [hchildren, Walker.visitAll_nil] at hvisit
  rw [Trace.ofTree, Tracer.record, Walker.walk, hroot, if_neg Bool.false_ne_true, Machine.run_start, hvisit]
  rfl

theorem ofTree_awaited : Trace.ofTree rootRules awaited = .error (.tooDeep 0 [⟨"argument", none⟩]) := by
  have hfound : rootRules.examine awaited 0 ⟨none, []⟩ = .ok ⟨"AwaitExpression", ["argument"], true⟩ := by
    refine Walker.examine_eq_ok_iff.2 ⟨rfl, rfl, .inl ⟨?_, rfl⟩⟩
    decide
  have hvisit : rootRules.visit Tracer.visitor awaited none .none [] (.start .empty) = _ :=
    Walker.visit_of_action hfound rfl (by decide)
  have hchildren : Walker.visitedChildren awaited ⟨"AwaitExpression", ["argument"], true⟩ .proceed =
    [(⟨"argument", none⟩, .object [("type", .string "Super")])] := rfl
  -- the child lies deeper than the limit
  have hchild : ∀ progress : Progress Tracer, rootRules.visit Tracer.visitor (.object [("type", .string "Super")])
      (some ⟨"argument", none⟩) (Ancestry.none.push awaited) [none] progress =
        (some (.failed (.fault (.tooDeep 0 [⟨"argument", none⟩]))), progress) :=
    fun _ => Walker.visit_of_fault rfl
  have hroot : awaited.isNull = false := rfl
  simp only [hchildren, Walker.visitAll_cons, hchild] at hvisit
  rw [Trace.ofTree, Tracer.record, Walker.walk, hroot, if_neg Bool.false_ne_true, Machine.run_start, hvisit]
  rfl

/-- What comes of the four files. -/
theorem traceOf_widgetFiles :
    widgetFiles.traceOf widgetComplaints.strict rootRules "gone" = .error (.unreadable .missing) ∧
    widgetFiles.traceOf widgetComplaints.strict rootRules "widget" =
      .ok [⟨.enter, "Widget"⟩, ⟨.leave, "Widget"⟩] ∧
    widgetFiles.traceOf widgetComplaints.strict rootRules "torn" = .error (.malformed "unexpected ?") ∧
    widgetFiles.traceOf widgetComplaints.strict rootRules "await" =
      .error (.fault (.tooDeep 0 [⟨"argument", none⟩])) := by
  have hblanks : ∀ c ∈ "".toList, Json.Strict.isSpace c = true := by simp
  have hleaf : ∀ name : String, (Json.object [("type", .string name)]).Printable := by
    intro name
    apply Json.Printable.object (List.pairwise_singleton _ _)
    · simp [Json.Embedded.marker]
    · simp [Json.Printable.string]
  have hwidget : Json.parse? widgetText = some widget := by
    have hprinted : widgetText = widget.indented ++ "" := by decide
    rw [hprinted]
    exact (hleaf "Widget").parse?_indented hblanks
  have hawaited : Json.parse? awaitedText = some awaited := by
    have hprinted : awaitedText = awaited.indented ++ "" := by decide
    rw [hprinted]
    exact (Json.Printable.pair (by decide) (by decide) (hleaf "Super") (.string _)).parse?_indented hblanks
  have htorn : Json.parse? "?" = none := by cbv
  have hreadWidget : widgetFiles.readText "widget" = .ok widgetText := rfl
  have hreadAwaited : widgetFiles.readText "await" = .ok awaitedText := rfl
  have hreadTorn : widgetFiles.readText "torn" = .ok "?" := rfl
  refine ⟨rfl, ?_, ?_, ?_⟩
  · simp only [FileAccess.traceOf, hreadWidget, hwidget, ofTree_widget]
    rfl
  · simp only [FileAccess.traceOf, hreadTorn, htorn]
    rfl
  · simp only [FileAccess.traceOf, hreadAwaited, hawaited, ofTree_awaited]
    rfl

/-- The options are read from the command line. In the text format the unknown type is traced both times, with an
empty line between the two, and the other files are listed apart with their errors. In the JSON format all of them
have their entries. -/
theorem run_trace_widget :
    Request.ofArguments ["trace", "--lenient", "--max-depth", "0", "gone", "widget", "torn", "await", "widget"] =
      .ok (.run (widgetInvocation .text)) ∧
    (widgetInvocation .text).loadSettings widgetFiles widgetComplaints = (.ok .default, [.settingsMissing]) ∧
    ((widgetInvocation .text).run widgetFiles widgetComplaints).output = unlines
      ["==> widget <==", "enter - Widget", "leave - Widget", "",
       "==> widget <==", "enter - Widget", "leave - Widget"] ∧
    ((widgetInvocation .text).run widgetFiles widgetComplaints).failures = some (unlines
      ["3 file(s) failed to trace:",
       "  gone: Failed to read file: No such file or directory (os error 2)",
       "  torn: Invalid JSON: unexpected ?",
       "  await: depth limit of 0 exceeded at argument"]) ∧
    ((widgetInvocation .text).run widgetFiles widgetComplaints).code = 1 ∧
    (∃ first second, Json.parse? ((widgetInvocation .json).run widgetFiles widgetComplaints).output =
      some (.array
        [.object [("error", .string "Failed to read file: No such file or directory (os error 2)"),
          ("path", .string "gone")],
         .object [("path", .string "widget"), ("trace", first)],
         .object [("error", .string "Invalid JSON: unexpected ?"), ("path", .string "torn")],
         .object [("error", .string "depth limit of 0 exceeded at argument"), ("path", .string "await")],
         .object [("path", .string "widget"), ("trace", second)]]) ∧
      Trace.ofJson? first = some [⟨.enter, "Widget"⟩, ⟨.leave, "Widget"⟩] ∧
      Trace.ofJson? second = some [⟨.enter, "Widget"⟩, ⟨.leave, "Widget"⟩]) ∧
    ((widgetInvocation .json).run widgetFiles widgetComplaints).code = 1 := by
  obtain ⟨hgone, hwidget, htorn, hawait⟩ := traceOf_widgetFiles
  have hfailures : untraced (widgetFiles.traceOf widgetComplaints.strict rootRules)
      ["gone", "widget", "torn", "await", "widget"] =
        [("gone", .unreadable .missing), ("torn", .malformed "unexpected ?"),
          ("await", .fault (.tooDeep 0 [⟨"argument", none⟩]))] := by
    simp [untraced, hgone, hwidget, htorn, hawait]
  have htext : Report.Shows _ .text _ (widgetFiles.traceOf widgetComplaints.strict rootRules) :=
    @run_trace widgetFiles widgetComplaints (widgetInvocation .text) .default _ _ true .text (some 0) rfl rfl
  have hjson : Report.Shows _ .json _ (widgetFiles.traceOf widgetComplaints.strict rootRules) :=
    @run_trace widgetFiles widgetComplaints (widgetInvocation .json) .default _ _ true .json (some 0) rfl rfl
  refine ⟨rfl, rfl, ?_, ?_, ?_, ?_, ?_⟩
  · rw [htext.text rfl]
    simp [traced, hgone, hwidget, htorn, hawait, Except.toOption, blockLines, Event.line, Phase.name]
  · rw [htext.failures rfl, hfailures]
    rfl
  · rw [htext.code, hfailures]
    rfl
  · obtain ⟨entries, houtput, hentries⟩ := hjson.json rfl
    simp only [List.forall₂_cons_left_iff, List.forall₂_nil_left_iff, hgone, hwidget, htorn, hawait] at hentries
    obtain ⟨_, _, ⟨⟩, hentries, rfl⟩ := hentries
    obtain ⟨_, _, ⟨_, first, hfirst⟩, hentries, rfl⟩ := hentries
    obtain ⟨_, _, ⟨⟩, hentries, rfl⟩ := hentries
    obtain ⟨_, _, ⟨⟩, hentries, rfl⟩ := hentries
    obtain ⟨_, _, ⟨_, second, hsecond⟩, rfl, rfl⟩ := hentries
    exact ⟨first, second, houtput, hfirst, hsecond⟩
  · rw [hjson.code, hfailures]
    rfl

end Invocation

end SyntaxWalk
