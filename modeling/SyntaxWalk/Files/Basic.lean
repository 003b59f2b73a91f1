/-!
# Reading files

What the program needs of a file system: reading a file and telling whether there is one. The access may
run in any monad, so that the same program works on the files of a machine and on a tree of files that is
only a value. Paths are texts whose parts are separated by slashes.
-/

set_option autoImplicit false

namespace SyntaxWalk

/-- Why a file could not be read. -/
inductive ReadError where
  /-- There is no such file. -/
  | missing
  /-- There is a directory in its place. -/
  | directory
  /-- The path leads through something that is no directory. -/
  | notDirectory
  /-- The path, or a name in it, is longer than file systems allow. -/
  | nameTooLong
  /-- The path has a character that no path can have, U+0000. -/
  | nulInPath
  /-- The content is no text. -/
  | notText
  /-- Anything else, as reported by the file system. -/
  | other (detail : String)
  deriving DecidableEq

/-- The wording of a read error. -/
def ReadError.message : ReadError → String
  | missing => "No such file or directory (os error 2)"
  | directory => "Is a directory (os error 21)"
  | notDirectory => "Not a directory (os error 20)"
  | nameTooLong => "File name too long (os error 36)"
  | nulInPath => "file name contained an unexpected NUL byte"
  | notText => "stream did not contain valid UTF-8"
  | other detail => detail

/-- Access to files by their paths. -/
structure FileAccess (m : Type → Type) where
  /-- The content of a file. -/
  read : String → m (Except ReadError ByteArray)
  /-- Is there a file at the path? -/
  isFile : String → m Bool

/-- The text of a content. -/
def decodeText (content : ByteArray) : Except ReadError String :=
  match String.fromUTF8? content with
  | some text => .ok text
  | none => .error .notText

namespace FileAccess

variable {m : Type → Type} [Monad m]

/-- The text of a file. -/
def readText (files : FileAccess m) (path : String) : m (Except ReadError String) := do
  match ← files.read path with
  | .ok content => return decodeText content
  | .error error => return .error error

/-- The first of several paths at which there is a file. -/
def firstFile? (files : FileAccess m) : List String → m (Option String)
  | [] => return none
  | path :: rest => do
    if ← files.isFile path then return some path
    else files.firstFile? rest

end FileAccess

/-! ## Paths -/

/-- The path of a name in a directory. The empty path is the directory in which the program runs. -/
def joinPath (dir name : String) : String :=
  if dir = "" || dir.endsWith "/" then dir ++ name else dir ++ "/" ++ name

/-- Removes slashes and parts `.` from the end of a path, which is given backwards. A part `.` at its
beginning stays. -/
def trimParts : List Char → List Char
  | '/' :: rest => trimParts rest
  | '.' :: '/' :: rest => trimParts rest
  | other => other

/-- The path of the directory that holds a file. -/
def parentPath (path : String) : String :=
  let backwards := path.toList.reverse.dropWhile (· != '/')
  let dir := (trimParts backwards).reverse
  if dir.isEmpty && path.startsWith "/" then "/" else String.ofList dir

end SyntaxWalk
