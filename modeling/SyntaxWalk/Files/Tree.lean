import SyntaxWalk.Files.Basic
import SyntaxWalk.NameMap

/-!
# Trees of files

A tree of files as a value, and the access to it. A path is followed part by part from the root of the
tree, in which the program runs: an empty part and the part `.` stay where they are, the part `..` goes
up, and any other part is looked up. Every part but the last has to lead to a directory, and a part after a
file is an error even if it is empty.

The root of the tree stands in a directory of which nothing else is known. A path leads there by going up
from the root, or by beginning with a slash, and finds nothing but directories further up.
-/

set_option autoImplicit false

namespace SyntaxWalk

/-- A file with its content, or a directory with its entries. -/
inductive FileTree where
  | file (content : ByteArray)
  | directory (entries : List (String × FileTree))

namespace FileTree

/-- A directory without entries. -/
def empty : FileTree :=
  directory []

/-- Changes what stands at the end of the given parts, making the directories on the way. -/
def change (f : FileTree → FileTree) : List String → FileTree → FileTree
  | [], tree => f tree
  | name :: rest, directory entries =>
    let below := (Bindings.get? name entries).getD empty
    directory (Bindings.set name (change f rest below) entries)
  | name :: rest, file _ => directory [(name, change f rest empty)]

/-- The parts of a path. -/
def parts (path : String) : List String :=
  path.splitOn "/"

/-- The parts of a path that name something. -/
def names (path : String) : List String :=
  (parts path).filter fun name => name != "" && name != "."

/-- The names that lead down from the root to the end of a path, after those already passed, which are
given latest first; `none` if the path leads out of the tree. -/
def resolve? (passed : List String) : List String → Option (List String)
  | [] => some passed.reverse
  | name :: rest =>
    if name = ".." then
      match passed with
      | [] => none
      | _ :: passed => resolve? passed rest
    else resolve? (name :: passed) rest

/-- Changes what stands at the end of a path, unless that is outside the tree. -/
def changeAt (f : FileTree → FileTree) (tree : FileTree) (path : List String) : FileTree :=
  match resolve? [] path with
  | some down => change f down tree
  | none => tree

/-- Makes all directories that a path passes after the names already passed, also those that it leaves
again. -/
def makeAfter (passed : List String) (tree : FileTree) : List String → FileTree
  | [] => tree
  | name :: rest =>
    let here := passed ++ [name]
    makeAfter here (changeAt id tree here) rest

/-- Makes all directories that a path passes. -/
def makeDirectories (tree : FileTree) (path : List String) : FileTree :=
  makeAfter [] tree path

/-- Puts a file at a path. -/
def addFile (tree : FileTree) (path : String) (content : ByteArray) : FileTree :=
  changeAt (fun _ => file content) (makeDirectories tree (names path).dropLast) (names path)

/-- Makes the directory at a path, if there is nothing yet. -/
def addDirectory (tree : FileTree) (path : String) : FileTree :=
  makeDirectories tree (names path)

/-- The greatest length of a name, in bytes. -/
def maxNameSize : Nat := 255

/-- The greatest length of a path, in bytes. -/
def maxPathSize : Nat := 4095

/-- What a name stands for in a directory with the given entries. -/
def lookup (entries : List (String × FileTree)) (name : String) : Except ReadError FileTree :=
  if maxNameSize < name.utf8ByteSize then .error .nameTooLong
  else
    match Bindings.get? name entries with
    | none => .error .missing
    | some found => .ok found

/-- Follows the parts of a path; `above` holds the directories on the way, nearest first. Above the root
there are only directories without known entries. -/
def follow (tree : FileTree) (above : List FileTree) : List String → Except ReadError FileTree
  | [] => .ok tree
  | name :: rest =>
    match tree with
    | file _ => .error .notDirectory
    | directory entries =>
      if name = "" ∨ name = "." then follow tree above rest
      else if name = ".." then
        match above with
        | [] => follow empty [] rest
        | parent :: above => follow parent above rest
      else
        match lookup entries name with
        | .error error => .error error
        | .ok found => follow found (tree :: above) rest

/-- What stands at a path. The empty path leads nowhere, and one that begins with a slash leads out of the
tree. -/
def find (tree : FileTree) (path : String) : Except ReadError FileTree :=
  if path.contains '\x00' then .error .nulInPath
  else if path = "" then .error .missing
  else if maxPathSize < path.utf8ByteSize then .error .nameTooLong
  else follow (if path.startsWith "/" then empty else tree) [] (parts path)

/-- The content of the file at a path. -/
def read (tree : FileTree) (path : String) : Except ReadError ByteArray :=
  match tree.find path with
  | .error error => .error error
  | .ok (file content) => .ok content
  | .ok (directory _) => .error .directory

/-- Is there a file at the path? -/
def isFile (tree : FileTree) (path : String) : Bool :=
  match tree.find path with
  | .ok (file _) => true
  | _ => false

/-- The access to a tree of files. -/
def access (tree : FileTree) : FileAccess Id :=
  ⟨tree.read, tree.isFile⟩

end FileTree

end SyntaxWalk
