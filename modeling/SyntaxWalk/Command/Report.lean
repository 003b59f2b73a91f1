import SyntaxWalk.Command.Arguments
import SyntaxWalk.Files.Basic
import SyntaxWalk.Json.Printer
import SyntaxWalk.Json.Strict
import SyntaxWalk.Trace.Json

/-!
# Reports on traced files

The result of tracing one file, and the text that is printed for several. In the text format the traces
follow one another in the order of the files; if more than one file was given, each trace has a heading
with the path, and an empty line stands between two traces. Files that could not be traced are left out
there and listed apart, with their errors. In the JSON format every file has its entry, a trace or an
error.
-/

set_option autoImplicit false

namespace SyntaxWalk

/-- Why a file could not be traced. -/
inductive FileError where
  /-- It could not be read. -/
  | unreadable (error : ReadError)
  /-- Its text is no JSON, for the reason that the reader gives. -/
  | malformed (detail : String)
  /-- The walk over its tree failed. -/
  | fault (found : Fault)

/-- The wording of the error. -/
def FileError.message : FileError → String
  | unreadable error => "Failed to read file: " ++ error.message
  | malformed detail => "Invalid JSON: " ++ detail
  | fault found => found.message

/-- What came of tracing a file. -/
structure FileTrace where
  path : String
  result : Except FileError Trace
  logs : List Log

namespace FileTrace

/-- The trace of the tree in a text, and what was logged; `complaint` is what is said about a text that is no
JSON. -/
def ofText (complaint : String → String) (walker : Walker) (text : String) :
    Except FileError Trace × List Log :=
  match Json.parse? text with
  | none => (.error (.malformed (complaint text)), [])
  | some tree =>
    let run := Tracer.empty.record walker tree
    match run.result with
    | .ok _ => (.ok run.state.trace, run.logs)
    | .error failure => (.error (.fault (Tracer.faultOf failure)), run.logs)

/-- What comes of tracing the file at a path, from what was read there. -/
def ofRead (complaint : String → String) (walker : Walker) (path : String) :
    Except ReadError String → FileTrace
  | .error error => ⟨path, .error (.unreadable error), [.tracingFile path]⟩
  | .ok text =>
    let (result, logs) := ofText complaint walker text
    ⟨path, result, .tracingFile path :: logs⟩

/-- Could the file not be traced? -/
def isFailure (file : FileTrace) : Bool :=
  match file.result with
  | .ok _ => false
  | .error _ => true

/-- The line about a file that could not be traced. -/
def failureLine? (file : FileTrace) : Option String :=
  match file.result with
  | .ok _ => none
  | .error error => some ("  " ++ file.path ++ ": " ++ error.message ++ "\n")

/-- The entry of a file in the JSON format. -/
def toJson (file : FileTrace) : Json :=
  match file.result with
  | .ok trace => .object [("path", .string file.path), ("trace", trace.toJson)]
  | .error error => .object [("error", .string error.message), ("path", .string file.path)]

end FileTrace

/-- The printing of traces, one file after the other. -/
structure Printing where
  /-- What is printed so far. -/
  out : String := ""
  /-- Is no trace printed yet? -/
  first : Bool := true

namespace Printing

/-- Prints an event on a line of its own. -/
def addEvent (out : String) (event : Event) : String :=
  out ++ event.line ++ "\n"

/-- Prints a heading, after an empty line unless it is the first. -/
def addHeading (printing : Printing) (path : String) : String :=
  let out := if printing.first then printing.out else printing.out ++ "\n"
  out ++ ("==> " ++ path ++ " <==\n")

/-- Prints the trace of a file, under a heading if headings are wanted. A file that could not be traced is passed
over. -/
def addFile (headings : Bool) (printing : Printing) (file : FileTrace) : Printing :=
  match file.result with
  | .error _ => printing
  | .ok trace =>
    let out := if headings then printing.addHeading file.path else printing.out
    ⟨trace.foldl addEvent out, false⟩

end Printing

/-- The printed traces of several files. -/
def renderTraces (files : List FileTrace) : String :=
  (files.foldl (Printing.addFile (1 < files.length)) {}).out

/-- The list of the files that could not be traced, if there are any. -/
def renderFailures? (files : List FileTrace) : Option String :=
  let lines := files.filterMap FileTrace.failureLine?
  if lines.isEmpty then none
  else some (toString lines.length ++ " file(s) failed to trace:\n" ++ String.join lines)

/-- All files in the JSON format. -/
def renderJson (files : List FileTrace) : String :=
  (Json.array (files.map FileTrace.toJson)).indented ++ "\n"

end SyntaxWalk
