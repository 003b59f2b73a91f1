import SyntaxWalk.Command.Run

/-!
# The program

Connects the commands to the files, the output and the exit code of a process.
-/

set_option autoImplicit false

namespace SyntaxWalk

/-- A read error from an error of the file system. -/
def ReadError.ofFailure : IO.Error → ReadError
  | .noFileOrDirectory _ _ _ => .missing
  | .inappropriateType _ code detail =>
    if code = 21 then .directory else if code = 20 then .notDirectory else .other detail
  | .invalidArgument _ code detail =>
    if code = 36 then .nameTooLong else .other (detail ++ " (os error " ++ toString code ++ ")")
  | .resourceExhausted _ code detail =>
    .other (detail ++ " (os error " ++ toString code ++ ")")
  | .permissionDenied _ code detail =>
    .other (detail ++ " (os error " ++ toString code ++ ")")
  | error => .other (toString error)

/-- Reads a file of the machine. -/
def readFile (path : String) : IO (Except ReadError ByteArray) := do
  try
    return .ok (← IO.FS.readBinFile path)
  catch error =>
    return .error (.ofFailure error)

/-- Access to the files of the machine. -/
def machineFiles : FileAccess IO where
  read := readFile
  isFile path := do
    match ← readFile path with
    | .ok _ => return true
    | .error (.other _) => return true
    | .error _ => return false

/-- What the program says about texts that it cannot read. -/
def complaints : Complaints where
  strict _ := "the text is not a JSON value"
  relaxed _ := "the text is not a JSON value with comments"

/-- Is a log entry shown? -/
def isShown (verbose : Bool) (entry : Log) : Bool :=
  verbose || entry.level != .debug

/-- Is the whole log wanted? -/
def isVerbose (arguments : List String) : Bool :=
  match Request.ofArguments arguments with
  | .ok (.run invocation) => invocation.verbose
  | _ => false

/-- Prints a report. -/
def printReport (verbose : Bool) (report : Report) : IO Unit := do
  for entry in report.logs do
    if isShown verbose entry then IO.eprintln entry.line
  IO.print report.output
  if let some failures := report.failures then IO.eprint ("\n" ++ failures)
  if let some fatal := report.fatal then IO.eprintln ("error: " ++ fatal.message)

end SyntaxWalk

/-- The program: answers its command line. -/
def main (arguments : List String) : IO UInt32 := do
  let report ← SyntaxWalk.runArguments SyntaxWalk.machineFiles SyntaxWalk.complaints arguments
  SyntaxWalk.printReport (SyntaxWalk.isVerbose arguments) report
  return report.code.toUInt32
