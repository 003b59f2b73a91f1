import Mathlib
import SyntaxWalk.Proofs.Command.Tracing
import SyntaxWalk.Proofs.Settings.Acceptance
import SyntaxWalk.Proofs.Walk.Siblings

/-!
# The commands agree

Three commands speak of the registry that the settings give: one lists its types, one shows the fields of a type,
and one traces files by it. The list is merged from two tables, the fields are looked up in one table and then in
the other, and a walk takes the fields backward. All three are here compared with one table that is read off the
settings (`Settings.fieldsOf?`): it has the fields chosen for a type and, for a type without a choice, the standard
ones.

The listed types are those of the table, the fields shown are those in the table, and a strict trace keeps to the
table (`Invocation.commands_agree`).
-/

set_option autoImplicit false

namespace SyntaxWalk

/-! ## The table of the settings -/

namespace Settings

variable (settings : Settings)

/-- The fields of a type under the settings: those chosen for it, else those of the standard type of its name. -/
def fieldsOf? (name : String) : Option (List String) :=
  (settings.keys.get? name).or ((NodeType.ofName? name).map NodeType.childKeys)

/-- The registry looks up the fields of the table. -/
theorem keys?_registry : settings.registry.keys? = settings.fieldsOf? := by
  funext name
  have hget := settings.get?_registry name
  rw [fieldsOf?, ← hget, Registry.keys?]
  cases hchosen : settings.registry.extensions.get? name with
  | some fields => simp [Registry.entry?_of_some hchosen]
  | none => simp [Registry.entry?_of_none hchosen, Function.comp_def]

/-- The registry lists the types of the table. -/
theorem mem_typeNames_registry (name : String) :
    name ∈ settings.registry.typeNames ↔ (settings.fieldsOf? name).isSome = true := by
  rw [Registry.mem_typeNames_iff, ← keys?_registry, Registry.contains, Registry.keys?, Option.isSome_map]

/-- The line of a type in the list: its name, marked if its fields were chosen. -/
def typeText (name : String) : String :=
  if (settings.keys.get? name).isSome then name ++ " (custom)" else name

/-- A file whose text has settings gives these settings, with its directory. -/
theorem load_of_ofText {files : FileAccess Id} {complaint : String → String} {path text : String}
    {settings : Settings} (hread : files.readText path = .ok text)
    (htext : ofText complaint text = .ok settings) :
    load files complaint path = .ok { settings with baseDir := some (parentPath path) } := by
  -- files that are only a value are read without an effect
  have hbind : ∀ {α β : Type} (first : Id α) (next : α → Id β), first >>= next = next first :=
    fun _ _ => rfl
  rw [load, hbind, hread]
  dsimp only
  rw [htext]
  rfl

end Settings

/-! ## Traces by the table -/

namespace Trace

variable {walker : Walker} {tree : Json}

/-- A strict trace fails at an unknown type only if the type has no entry. -/
theorem keys?_of_unknownType {tag : String} {path : Path}
    (h : ofTree walker tree = .error (.unknownType tag path)) : walker.registry.keys? tag = none := by
  rw [ofTree] at h
  rcases Tracer.result_record .empty walker tree with hresult | ⟨fault, hresult⟩
  · rw [hresult] at h
    cases h
  · rw [hresult] at h
    cases h
    obtain ⟨node, -, hreports, -⟩ := Walker.reports_of_result hresult
    cases hreports.1 with
    | unknownType htag hkeys hpolicy => exact hkeys

/-- A strict trace is written by calls that keep to the registry. -/
theorem keepsTo_of_ofTree {trace : Trace} (hstrict : walker.unknownTypes = .strict)
    (h : ofTree walker tree = .ok trace) :
    trace = (Tracer.empty.record walker tree).calls.map Call.event ∧
      KeepsTo walker.registry.keys? tree (Tracer.empty.record walker tree).calls := by
  have hobserver : Tracer.visitor = .observer fun phase _ context tracer =>
      tracer.push ⟨phase, context.nodeType⟩ := rfl
  have hwritten := Tracer.trace_record_empty walker tree
  rw [ofTree] at h
  rcases Tracer.result_record .empty walker tree with hresult | ⟨fault, hresult⟩
  · rw [hresult] at h
    cases h
    refine ⟨hwritten, ?_⟩
    rw [Tracer.record, hobserver] at hresult ⊢
    exact Walker.keepsTo_of_completed hstrict hresult
  · rw [hresult] at h
    cases h

end Trace

/-! ## The commands -/

namespace Report

/-- The report with another log. -/
def withLogs (report : Report) (logs : List Log) : Report :=
  { report with logs }

variable (report : Report) (logs : List Log)

@[simp] theorem output_withLogs : (report.withLogs logs).output = report.output := rfl

@[simp] theorem fatal_withLogs : (report.withLogs logs).fatal = report.fatal := rfl

@[simp] theorem code_withLogs : (report.withLogs logs).code = report.code := rfl

end Report

/-- What the commands leave behind under the settings: the types listed are the given names, and the commands speak
of the same types and fields. -/
structure Settings.Governs (settings : Settings) (files : FileAccess Id) (complaint : String → String)
    (names : List String) (report : Command → Report) : Prop where
  /-- The names are listed one on each line, and those whose fields were chosen are marked. -/
  types : (report .types).code = 0 ∧ (report .types).output = unlines (names.map settings.typeText)
  /-- The names increase strictly, so that each is listed once. -/
  increasing : names.Pairwise (· < ·)
  /-- The listed names are those whose fields are shown. -/
  listed : ∀ name, name ∈ names ↔ (report (.keys name)).code = 0
  /-- The fields shown are those in the table, one on each line. -/
  keys : ∀ name fields, settings.fieldsOf? name = some fields → (report (.keys name)).code = 0 ∧
    (report (.keys name)).output = unlines (if fields.isEmpty then ["(no children)"] else fields)
  /-- A type that is not in the table is refused. -/
  refused : ∀ name, settings.fieldsOf? name = none →
    (report (.keys name)).fatal = some (.unknownType name) ∧ (report (.keys name)).output = ""
  /-- The report on traced files is made of what comes of each of them. -/
  traced : ∀ paths format maxDepth, ∃ more traces,
    report (.trace paths false format maxDepth) = (Command.reportTraces format traces).withLogs more ∧
      List.Forall₂ (fun path (file : FileTrace) => file.path = path ∧
        file.result = files.traceOf complaint (settings.tracingWalker false maxDepth) path) paths traces
  /-- A strict trace fails at a type only if the type is not listed. -/
  unknown : settings.unknownTypes = .strict → ∀ maxDepth tree tag path,
    Trace.ofTree (settings.tracingWalker false maxDepth) tree = .error (.unknownType tag path) → tag ∉ names
  /-- A strict trace of a tree is written by calls that keep to the table. -/
  followed : settings.unknownTypes = .strict → ∀ maxDepth tree trace,
    Trace.ofTree (settings.tracingWalker false maxDepth) tree = .ok trace →
      trace = (Tracer.empty.record (settings.tracingWalker false maxDepth) tree).calls.map Call.event ∧
        KeepsTo settings.fieldsOf? tree (Tracer.empty.record (settings.tracingWalker false maxDepth) tree).calls

namespace Command

theorem typeLine_registry (settings : Settings) (name : String) :
    typeLine settings.registry name = settings.typeText name ++ "\n" := by
  have hextension : settings.registry.isExtension name = (settings.keys.get? name).isSome := by
    rw [Registry.isExtension, NameMap.contains, settings.get?_registry]
  have hmark : " (custom)\n" = " (custom)" ++ "\n" := by decide
  simp only [typeLine, Settings.typeText, hextension]
  split
  · exact (congrArg (name ++ ·) hmark).trans String.append_assoc.symm
  · rfl

theorem output_listTypes (settings : Settings) :
    (listTypes settings.registry).output = unlines (settings.registry.typeNames.map settings.typeText) := by
  have hlines : typeLine settings.registry = fun name => settings.typeText name ++ "\n" :=
    funext (typeLine_registry settings)
  rw [listTypes, hlines]
  generalize settings.registry.typeNames = names
  rw [unlines, List.map_map]
  rfl

theorem fieldLines_eq (fields : List String) :
    fieldLines fields = unlines (if fields.isEmpty then ["(no children)"] else fields) := by
  cases fields with
  | nil => rfl
  | cons field rest => rfl

end Command

namespace Invocation

variable {files : FileAccess Id} {complaints : Complaints} {invocation : Invocation} {settings : Settings}
  {logs : List Log}

/-- The invocation with another command. -/
def asking (invocation : Invocation) (command : Command) : Invocation :=
  { invocation with command }

/-- The settings do not depend on the command. -/
theorem run_asking (hload : invocation.loadSettings files complaints = (.ok settings, logs)) (command : Command) :
    ∃ more, (invocation.asking command).run files complaints =
      (command.runUnder files complaints settings : Report).withLogs more :=
  @run_of_load files complaints (invocation.asking command) settings logs hload

/-- Listing the types prints their lines. -/
theorem run_types (hload : invocation.loadSettings files complaints = (.ok settings, logs)) :
    ((invocation.asking .types).run files complaints).code = 0 ∧
      ((invocation.asking .types).run files complaints).output =
        unlines (settings.registry.typeNames.map settings.typeText) := by
  obtain ⟨more, hrun⟩ := run_asking hload .types
  have hunder : Command.runUnder files complaints settings .types = Command.listTypes settings.registry := rfl
  rw [hrun, hunder, Report.code_withLogs, Report.output_withLogs, Command.output_listTypes]
  exact ⟨rfl, rfl⟩

/-- Showing the fields of a type gives those in the table, and fails exactly if there are none. -/
theorem run_keys (hload : invocation.loadSettings files complaints = (.ok settings, logs)) (name : String) :
    (∀ fields, settings.fieldsOf? name = some fields →
      ((invocation.asking (.keys name)).run files complaints).code = 0 ∧
      ((invocation.asking (.keys name)).run files complaints).output =
        unlines (if fields.isEmpty then ["(no children)"] else fields)) ∧
    (settings.fieldsOf? name = none →
      ((invocation.asking (.keys name)).run files complaints).code = 2 ∧
      ((invocation.asking (.keys name)).run files complaints).fatal = some (.unknownType name) ∧
      ((invocation.asking (.keys name)).run files complaints).output = "") := by
  obtain ⟨more, hrun⟩ := run_asking hload (.keys name)
  have hunder : Command.runUnder files complaints settings (.keys name) =
      Command.showKeys settings.registry name := rfl
  rw [hrun, hunder, Report.code_withLogs, Report.output_withLogs, Report.fatal_withLogs, Command.showKeys,
    settings.keys?_registry]
  constructor
  · intro fields hfields
    rw [hfields]
    exact ⟨rfl, Command.fieldLines_eq fields⟩
  · intro hnone
    rw [hnone]
    exact ⟨rfl, rfl, rfl⟩

/-- Tracing files without the lenient option reports what comes of each of them. -/
theorem run_traces (hload : invocation.loadSettings files complaints = (.ok settings, logs)) (paths : List String)
    (format : Format) (maxDepth : Option ℕ) :
    ∃ more traces, (invocation.asking (.trace paths false format maxDepth)).run files complaints =
        (Command.reportTraces format traces).withLogs more ∧
      List.Forall₂ (fun path (file : FileTrace) => file.path = path ∧
        file.result = files.traceOf complaints.strict (settings.tracingWalker false maxDepth) path) paths traces := by
  have hasked : (invocation.asking (.trace paths false format maxDepth)).loadSettings files complaints =
      (.ok settings, logs) := hload
  obtain ⟨more, hrun⟩ := run_eq rfl hasked
  refine ⟨more, _, hrun, ?_⟩
  -- each file is traced from what is read at its path alone
  rw [List.forall₂_map_right_iff, List.forall₂_same]
  intro path _
  exact ⟨FileTrace.path_ofRead _ _ path _, FileTrace.result_ofRead files _ _ path⟩

/-- Under settings that were loaded, whatever they are, the three commands agree. Listing the types prints each
type once, in increasing order, exactly if the fields of the type can be shown, and marks those whose fields the
settings choose. Whatever the tree, a strict trace fails at an unknown type only if the type is not listed; if it
completes, each node below the root was found in a field that is shown for the tag of its parent, and the children
of each node were taken in the order in which the fields are shown for its tag. -/
theorem commands_agree (hload : invocation.loadSettings files complaints = (.ok settings, logs)) :
    ∃ names, settings.Governs files complaints.strict names fun command =>
      (invocation.asking command).run files complaints := by
  have hlisted := settings.mem_typeNames_registry
  have hkeys := settings.keys?_registry
  refine ⟨settings.registry.typeNames, ?_⟩
  constructor
  · exact run_types hload
  · exact settings.registry.pairwise_typeNames
  · intro name
    obtain ⟨hshown, hrefused⟩ := run_keys hload name
    rw [hlisted]
    cases hfields : settings.fieldsOf? name with
    | some fields => simp [(hshown fields hfields).1]
    | none => simp [(hrefused hfields).1]
  · intro name
    exact (run_keys hload name).1
  · intro name hnone
    exact ((run_keys hload name).2 hnone).2
  · exact run_traces hload
  · intro hstrict maxDepth tree tag path hfault
    -- the fault says that the registry has no fields for the type, so neither has the table
    have hnone := Trace.keys?_of_unknownType hfault
    rw [Settings.tracingWalker, ← settings.registry_eq, hkeys] at hnone
    rw [hlisted, hnone]
    exact Bool.false_ne_true
  · intro hstrict maxDepth tree trace htrace
    have hregistry : (settings.tracingWalker false maxDepth).registry = settings.registry :=
      settings.registry_eq.symm
    have hkeeps := Trace.keepsTo_of_ofTree hstrict htrace
    rwa [hregistry, hkeys] at hkeeps

/-- A settings text that takes all fields from a standard type. -/
def closedText : String :=
  "\x7bkeys:\x7bProgram:[]\x7d\x7d"

/-- The value of the text. -/
def closedValue : Json :=
  .object [("keys", .object [("Program", .array [])])]

/-- The settings in the text, with the directory of its file. -/
def closedSettings : Settings where
  keys := .ofList [("Program", [])]
  baseDir := some (parentPath "walk.json")

/-- Files of which one holds the text. -/
def closedFiles : FileAccess Id :=
  ⟨fun path => if path = "walk.json" then .ok closedText.toUTF8 else .error .missing, fun _ => false⟩

/-- An invocation that names the file. -/
def closedInvocation : Invocation :=
  ⟨.types, some "walk.json", false⟩

/-- The text spells out the value. -/
theorem parseRelaxed?_closedText : Json.parseRelaxed? closedText = some (some closedValue) := by
  have hopen : Json.Relaxed.lexer.next? closedText.toList =
      some (some .openBrace, "keys:\x7bProgram:[]\x7d\x7d".toList) := rfl
  have hkeys : Json.Relaxed.lexer.next? "keys:\x7bProgram:[]\x7d\x7d".toList =
      some (some (.word "keys"), ":\x7bProgram:[]\x7d\x7d".toList) := rfl
  have hcolon : Json.Relaxed.lexer.next? ":\x7bProgram:[]\x7d\x7d".toList =
      some (some .colon, "\x7bProgram:[]\x7d\x7d".toList) := rfl
  have hinner : Json.Relaxed.lexer.next? "\x7bProgram:[]\x7d\x7d".toList =
      some (some .openBrace, "Program:[]\x7d\x7d".toList) := rfl
  have hname : Json.Relaxed.lexer.next? "Program:[]\x7d\x7d".toList =
      some (some (.word "Program"), ":[]\x7d\x7d".toList) := rfl
  have hsecond : Json.Relaxed.lexer.next? ":[]\x7d\x7d".toList =
      some (some .colon, "[]\x7d\x7d".toList) := rfl
  have hlist : Json.Relaxed.lexer.next? "[]\x7d\x7d".toList =
      some (some .openBracket, "]\x7d\x7d".toList) := rfl
  have hend : Json.Relaxed.lexer.next? "]\x7d\x7d".toList =
      some (some .closeBracket, "\x7d\x7d".toList) := rfl
  have hclose : Json.Relaxed.lexer.next? "\x7d\x7d".toList =
      some (some .closeBrace, "\x7d".toList) := rfl
  have hlast : Json.Relaxed.lexer.next? "\x7d".toList = some (some .closeBrace, []) := rfl
  have htokens : Json.Relaxed.lexer.tokens closedText = some [.openBrace, .word "keys", .colon, .openBrace,
      .word "Program", .colon, .openBracket, .closeBracket, .closeBrace, .closeBrace] := by
    rw [Json.Lexer.tokens, Json.Lexer.tokensAfter_of_next _ _ hopen, Json.Lexer.tokensAfter_of_next _ _ hkeys,
      Json.Lexer.tokensAfter_of_next _ _ hcolon, Json.Lexer.tokensAfter_of_next _ _ hinner,
      Json.Lexer.tokensAfter_of_next _ _ hname, Json.Lexer.tokensAfter_of_next _ _ hsecond,
      Json.Lexer.tokensAfter_of_next _ _ hlist, Json.Lexer.tokensAfter_of_next _ _ hend,
      Json.Lexer.tokensAfter_of_next _ _ hclose, Json.Lexer.tokensAfter_of_next _ _ hlast,
      Json.Lexer.tokensAfter_nil]
    rfl
  simp only [Json.parseRelaxed?, htokens]
  rfl

/-- The settings are read from the text. -/
theorem ofText_closedText : Settings.ofText id closedText = .ok { closedSettings with baseDir := none } := by
  have hconforms : Settings.Conforms closedValue := by
    refine ⟨_, rfl, ?_⟩
    simp only [List.forall_mem_singleton]
    apply Settings.Allowed.keys
    simp only [List.forall_mem_singleton]
    exact ⟨[], rfl, List.not_mem_nil⟩
  have hread : (Json.parseRelaxed? closedText).map (·.getD (.object [])) = some closedValue := by
    rw [parseRelaxed?_closedText]
    rfl
  rw [Settings.ofText_eq_ofValue id hread, Settings.ofValue_of_conforms hconforms]
  rfl

theorem loadSettings_closed : closedInvocation.loadSettings closedFiles ⟨id, id⟩ = (.ok closedSettings, []) := by
  show ((Settings.load closedFiles id "walk.json" : Except SettingsError Settings), ([] : List Log)) = _
  rw [Settings.load_of_ofText rfl ofText_closedText]
  rfl

/-- A standard type without its fields is listed with a mark, and shown to have no children. -/
theorem commands_agree_closed :
    closedInvocation.loadSettings closedFiles ⟨id, id⟩ = (.ok closedSettings, []) ∧
    ∃ names : List String, "Program" ∈ names ∧ closedSettings.typeText "Program" = "Program (custom)" ∧
      ((closedInvocation.asking .types).run closedFiles ⟨id, id⟩).output =
        unlines (names.map closedSettings.typeText) ∧
      ((closedInvocation.asking (.keys "Program")).run closedFiles ⟨id, id⟩).output = "(no children)\n" := by
  obtain ⟨names, hgoverns⟩ := commands_agree loadSettings_closed
  have hfields : closedSettings.fieldsOf? "Program" = some [] := rfl
  obtain ⟨hcode, houtput⟩ := hgoverns.keys "Program" [] hfields
  exact ⟨loadSettings_closed, names, (hgoverns.listed "Program").2 hcode, rfl, hgoverns.types.2, houtput⟩

end Invocation

end SyntaxWalk
