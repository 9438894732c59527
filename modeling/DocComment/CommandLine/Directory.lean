import DocComment.Assoc
import DocComment.CommandLine.Files

/-!
# A directory of its own

The smallest file system of use: files by name in one directory, with no directories inside and
nothing known of what lies outside. A path names a file in it, or the directory itself, or nothing.
-/

namespace DocComment.CommandLine

namespace Path

/-- The greatest number of bytes of a name. -/
def greatestName : Nat := 255

/-- The greatest number of bytes of a path. -/
def greatestPath : Nat := 4095

/-- A name that no file can have. -/
def isTooLong (name : String) : Bool := greatestName < name.utf8ByteSize

end Path

/-- Files by name. -/
abbrev Directory := List (String × String)

namespace Directory

/-- What a path leads to. -/
inductive Place where
  | directory
  /-- A name in the directory, and whether a slash follows it. -/
  | name (name : String) (slash : Bool)
  deriving DecidableEq, Repr

/-- Follows the parts of a path from outside the directory. -/
def outside : List Text → Except FileError Place
  | [] => .ok .directory
  | part :: rest =>
    if Path.isIdle part || Path.isUp part then outside rest
    else if Path.isTooLong (String.ofList part) then .error .nameTooLong
    else .error .notFound

/-- Follows the parts of a path that starts in the directory. -/
def follow (directory : Directory) : List Text → Except FileError Place
  | [] => .ok .directory
  | part :: rest =>
    if Path.isIdle part then follow directory rest
    else if Path.isUp part then outside rest
    else
      let name := String.ofList part
      match rest with
      | [] => .ok (.name name false)
      | rest =>
        if rest.all List.isEmpty then .ok (.name name true)
        else if Path.isTooLong name then .error .nameTooLong
        else if (Assoc.get? name directory).isSome then .error .notDirectory
        else .error .notFound

def locate (directory : Directory) (path : String) : Except FileError Place :=
  if path.isEmpty then .error .notFound
  else if Path.greatestPath < path.utf8ByteSize then .error .nameTooLong
  else if path.toList.head? = some '/' then outside (Path.parts path)
  else directory.follow (Path.parts path)

def readFile (directory : Directory) (path : String) : Except FileError String := do
  match ← directory.locate path with
  | .directory => .error .isDirectory
  | .name name slash =>
    if Path.isTooLong name then .error .nameTooLong
    else
      match Assoc.get? name directory with
      | none => .error .notFound
      | some text => if slash then .error .notDirectory else .ok text

/-- Writes a file. A name before a slash is not looked up, since it could only be a directory. -/
def writeFile (directory : Directory) (path text : String) : Except FileError Directory := do
  match ← directory.locate path with
  | .directory => .error .isDirectory
  | .name name slash =>
    if slash then .error .isDirectory
    else if Path.isTooLong name then .error .nameTooLong
    else .ok (Assoc.put name text directory)

/-- The files of a directory as a program meets them. -/
def system : FileSystem Directory where
  readFile := readFile
  writeFile := writeFile

end Directory

end DocComment.CommandLine
