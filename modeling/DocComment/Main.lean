import DocComment.CommandLine.Run

/-!
# The program

Reads the files that a run may ask for, and prints or writes what the run comes to.
-/

namespace DocComment.CommandLine

def topHelp : String :=
  "Convert Doxygen comments into C# XML documentation comments\n\n" ++
    "Usage: xmldoc [OPTIONS] [COMMAND]\n\n" ++
    "Commands:\n" ++
    "  inspect <PATH> [TRANSFORM]       Inspect the comment tree at a pipeline stage\n" ++
    "  convert <INPUT> [-o <OUTPUT>]    Convert declaration records (default command)\n" ++
    "  help [COMMAND]                   Print help\n\n" ++
    "Options:\n" ++
    "      --list-transforms    List available transforms\n" ++
    "      --list-tags          List the Doxygen commands that are translated\n" ++
    "      --config <PATH>      Path to an xmldoc.toml configuration file\n" ++
    "  -d, --debug              Raise log verbosity (repeatable)\n" ++
    "  -h, --help               Print help\n" ++
    "  -V, --version            Print version\n"

def helpText : Level → String
  | none => topHelp
  | some .inspect =>
    "Inspect the comment tree at a pipeline stage\n\nUsage: xmldoc inspect <PATH> [TRANSFORM]\n"
  | some .convert =>
    "Convert declaration records (default command)\n\nUsage: xmldoc convert <INPUT> [-o <OUTPUT>]\n"

/-- The number of a system error, which is given with either sign. -/
def errorNumber (code : UInt32) : Nat := min code.toNat (-code).toNat

def errorOfNumber? : Nat → Option FileError
  | 20 => some .notDirectory
  | 21 => some .isDirectory
  | 36 => some .nameTooLong
  | _ => none

def fileError (error : IO.Error) : FileError :=
  match error with
  | .noFileOrDirectory _ _ _ => .notFound
  | .inappropriateType _ code _ | .invalidArgument _ code _ =>
    (errorOfNumber? (errorNumber code)).getD (.other (toString error))
  | _ => .other (toString error)

/-- The text of a file, or why it cannot be read. -/
def readNow (path : String) : IO (String × Except FileError String) := do
  try return (path, .ok (← IO.FS.readFile path))
  catch error => return (path, .error (fileError error))

def tellWarnings (warnings : List Diagnostic) : IO Unit :=
  warnings.forM fun warning => IO.eprintln ("WARN " ++ warning.logText)

def usageText : String := "error: unexpected arguments\n\nFor more information, try '--help'."

/-- Shows an outcome and gives its exit code. -/
def conclude (outcome : Outcome) : IO UInt32 := do
  tellWarnings outcome.warnings
  match outcome.printout with
  | .nothing => pure ()
  | .help level => IO.print (helpText level)
  | .text text => IO.print text
  if outcome = .usage then IO.eprintln usageText
  outcome.failure?.forM fun failure => IO.eprintln failure.message
  return outcome.exitCode.toUInt32

/-- Runs the program with its arguments. -/
def runNow (arguments : List String) : IO UInt32 := do
  let files ← (readPaths arguments).mapM readNow
  let readFile := fun path => ((files.find? (·.1 == path)).map (·.2)).getD (.error .notFound)
  match run readFile arguments with
  | .written path text warnings =>
    try
      IO.FS.writeFile path text
      conclude (.written path text warnings)
    catch error => conclude (.failed (.writing path (fileError error)) warnings)
  | outcome => conclude outcome

end DocComment.CommandLine

def main (arguments : List String) : IO UInt32 := DocComment.CommandLine.runNow arguments
