import DocComment.Text

/-!
# Files by their paths

A program meets files by the paths that lead to them. It reads the text at a path, or writes a text
there, and either may fail.
-/

namespace DocComment.CommandLine

/-- Why a file cannot be read or written. -/
inductive FileError where
  | notFound
  | notDirectory
  | isDirectory
  | nameTooLong
  | other (message : String)
  deriving DecidableEq, Repr

def FileError.message : FileError → String
  | notFound => "No such file or directory (os error 2)"
  | notDirectory => "Not a directory (os error 20)"
  | isDirectory => "Is a directory (os error 21)"
  | nameTooLong => "File name too long (os error 36)"
  | other message => message

/-- Files that can be read and written. A write that fails changes nothing. -/
structure FileSystem (Files : Type) where
  readFile : Files → String → Except FileError String
  writeFile : Files → String → String → Except FileError Files

/-- The text at a path, if there is one that can be read. -/
def FileSystem.text? {Files : Type} (system : FileSystem Files) (files : Files) (path : String) :
    Option String :=
  (system.readFile files path).toOption

namespace Path

/-- The parts of a path between slashes. -/
def parts (path : String) : List Text :=
  let (first, rest) := split '/' path.toList
  first :: rest

/-- A part that stays where it is. -/
def isIdle (part : Text) : Bool := part.isEmpty || part == ['.']

/-- A part that leads out of a directory. -/
def isUp (part : Text) : Bool := part == ['.', '.']

/-- The path with an ending put to its last name, if it ends in a name. -/
def withEnding? (path ending : String) : Option String :=
  match dropEndWhile isIdle (parts path) with
  | [] => none
  | first :: rest =>
    if (first :: rest).getLast?.any isUp then none
    else some (String.ofList (join '/' first rest) ++ ending)

end Path

end DocComment.CommandLine
