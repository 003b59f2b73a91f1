import SyntaxWalk.Command.Report
import SyntaxWalk.Settings.Load

/-!
# Running commands

A command first loads the settings: from the file named on the command line, else from a settings file in
the directory in which the program runs, else the default ones. Then it lists the types of the registry,
shows the fields of one type, or traces files. The exit code is 0 for success, 1 if some file could not be
traced, and 2 if nothing could be done at all.
-/

set_option autoImplicit false

namespace SyntaxWalk

/-- Why nothing could be done. -/
inductive Fatal where
  /-- The command line was refused. -/
  | usage (error : UsageError)
  /-- The settings could not be loaded. -/
  | settings (error : SettingsError)
  /-- The fields of an unknown type were asked for. -/
  | unknownType (name : String)

/-- The wording of the error. -/
def Fatal.message : Fatal → String
  | usage error => error.message
  | settings error => error.message
  | unknownType name => "Unknown node type `" ++ name ++ "`"

/-- What the readers of JSON say about a text that they refuse. The readers of this library only refuse; the
wording is the caller's. -/
structure Complaints where
  /-- About a file to be traced, which holds strict JSON. -/
  strict : String → String
  /-- About a settings file, which holds relaxed JSON. -/
  relaxed : String → String

/-- What a command leaves behind. -/
structure Report where
  /-- What is printed. -/
  output : String := ""
  /-- The list of the files that could not be traced, if it is printed apart. -/
  failures : Option String := none
  /-- Could some file not be traced? -/
  incomplete : Bool := false
  /-- Why nothing could be done. -/
  fatal : Option Fatal := none
  /-- What was logged. -/
  logs : List Log := []

/-- The exit code. -/
def Report.code (report : Report) : Nat :=
  match report.fatal with
  | some _ => 2
  | none => if report.incomplete then 1 else 0

namespace Command

/-- The fields of a type, one on each line. -/
def fieldLines (fields : List String) : String :=
  if fields.isEmpty then "(no children)\n"
  else String.join (fields.map fun field => field ++ "\n")

/-- The line of a type in the list of types. -/
def typeLine (registry : Registry) (name : String) : String :=
  if registry.isExtension name then name ++ " (custom)\n" else name ++ "\n"

/-- Shows the fields of a type. -/
def showKeys (registry : Registry) (nodeType : String) : Report :=
  match registry.keys? nodeType with
  | none => { fatal := some (.unknownType nodeType) }
  | some fields => { output := fieldLines fields }

/-- Lists the types. -/
def listTypes (registry : Registry) : Report :=
  { output := String.join (registry.typeNames.map (typeLine registry)) }

/-- Reports on traced files. -/
def reportTraces (format : Format) (files : List FileTrace) : Report :=
  let incomplete := files.any FileTrace.isFailure
  let logs := .tracingFiles files.length :: files.flatMap FileTrace.logs
  match format with
  | .text => { output := renderTraces files, failures := renderFailures? files, incomplete, logs }
  | .json => { output := renderJson files, incomplete, logs }

/-- The settings after the options of the command that traces files. -/
def adjust (settings : Settings) (lenient : Bool) (maxDepth : Option Nat) : Settings :=
  let settings := if lenient then settings.withUnknownTypes .lenient else settings
  match maxDepth with
  | none => settings
  | some depth => settings.withMaxDepth depth

variable {m : Type → Type} [Monad m]

/-- Traces the files at the given paths. -/
def traceFiles (files : FileAccess m) (complaint : String → String) (walker : Walker) :
    List String → m (List FileTrace)
  | [] => return []
  | path :: rest => do
    let first := FileTrace.ofRead complaint walker path (← files.readText path)
    return first :: (← traceFiles files complaint walker rest)

/-- Runs a command under settings. -/
def runUnder (files : FileAccess m) (complaints : Complaints) (settings : Settings) :
    Command → m Report
  | .types => return listTypes settings.registry
  | .keys nodeType => return showKeys settings.registry nodeType
  | .trace paths lenient format maxDepth => do
    let walker := (adjust settings lenient maxDepth).walker
    return reportTraces format (← traceFiles files complaints.strict walker paths)

end Command

namespace Invocation

variable {m : Type → Type} [Monad m]

/-- Loads the settings of an invocation, and tells what is logged on the way. -/
def loadSettings (files : FileAccess m) (complaints : Complaints) (invocation : Invocation) :
    m (Except SettingsError Settings × List Log) := do
  match invocation.settings with
  | some path => return (← Settings.load files complaints.relaxed path, [])
  | none =>
    match ← Settings.discover files "." with
    | some path => return (← Settings.load files complaints.relaxed path, [.settingsFound path])
    | none => return (.ok .default, [.settingsMissing])

/-- Runs an invocation. -/
def run (files : FileAccess m) (complaints : Complaints) (invocation : Invocation) : m Report := do
  match ← invocation.loadSettings files complaints with
  | (.error error, logs) => return { fatal := some (.settings error), logs }
  | (.ok settings, logs) =>
    let report ← invocation.command.runUnder files complaints settings
    let built := .registryBuilt settings.registry.extensions.size
    return { report with logs := logs ++ built :: report.logs }

end Invocation

/-- The version of the program. -/
def versionText : String :=
  "eswalk 0.1.0\n"

/-- How the program is used. -/
def helpText : String :=
  "Command-line tracer for ESTree syntax trees\n\n" ++
  "Usage: eswalk [OPTIONS] <COMMAND>\n\n" ++
  "Commands:\n" ++
  "  trace  Print the enter/leave trace of ESTree JSON files\n" ++
  "  keys   Show the child fields visited for a node type\n" ++
  "  types  List every registered node type\n\n" ++
  "Options:\n" ++
  "  -c, --config <CONFIG>  Configuration file path\n" ++
  "  -v, --verbose          Enable verbose output\n" ++
  "  -h, --help             Print help\n" ++
  "  -V, --version          Print version\n"

/-- Answers a command line. -/
def runArguments {m : Type → Type} [Monad m] (files : FileAccess m) (complaints : Complaints)
    (arguments : List String) : m Report :=
  match Request.ofArguments arguments with
  | .error error => return { fatal := some (.usage error) }
  | .ok .version => return { output := versionText }
  | .ok .help => return { output := helpText }
  | .ok (.run invocation) => invocation.run files complaints

end SyntaxWalk
