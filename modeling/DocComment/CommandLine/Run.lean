import DocComment.CommandLine.Arguments
import DocComment.CommandLine.Directory
import DocComment.Declaration.Json
import DocComment.Settings

/-!
# Runs of the program

A run goes from the arguments and the files it may read to what it prints or writes. Nothing is
printed or written before everything has been read.
-/

namespace DocComment.CommandLine

/-- Why a run fails. -/
inductive Failure where
  | settings (error : SettingsError)
  | reading (path : String) (error : FileError)
  | input (error : InputError)
  | transform (error : TransformError)
  | writing (path : String) (error : FileError)
  | noCommand
  deriving DecidableEq, Repr

def Failure.message : Failure → String
  | settings error => "Failed to load configuration: " ++ error.message
  | reading path error => "Error reading file '" ++ path ++ "': " ++ error.message
  | input error => "Error: " ++ error.message
  | transform error => "Error: " ++ error.message
  | writing path error => "Error writing file '" ++ path ++ "': " ++ error.message
  | noCommand => "Unknown command"

/-- What a run comes to. Warnings are those that the log level lets through. -/
inductive Outcome where
  | usage
  | help (level : Level)
  | version
  | failed (failure : Failure) (warnings : List Diagnostic)
  | printed (text : String) (warnings : List Diagnostic)
  | written (path text : String) (warnings : List Diagnostic)
  deriving DecidableEq, Repr

/-- What a run prints as its result. -/
inductive Printout where
  | nothing
  | help (level : Level)
  | text (text : String)
  deriving DecidableEq, Repr

def versionText : String := "xmldoc 0.1.0\n"

namespace Outcome

def exitCode : Outcome → Nat
  | usage => 2
  | failed _ _ => 1
  | help _ | version | printed _ _ | written _ _ _ => 0

def warnings : Outcome → List Diagnostic
  | failed _ warnings | printed _ warnings | written _ _ warnings => warnings
  | usage | help _ | version => []

def printout : Outcome → Printout
  | help level => .help level
  | version => .text versionText
  | printed text _ => .text text
  | usage | failed _ _ | written _ _ _ => .nothing

/-- Why the run fails, if it does for a reason of its own. -/
def failure? : Outcome → Option Failure
  | failed failure _ => some failure
  | _ => none

end Outcome

/-! ## Listings -/

def stageDescription : Stage → String
  | .parsed => "Tree as given by the record"
  | .summary => "Brief and description pooled into a summary"
  | .filtered => "Unsupported commands and unknown parameters removed"
  | .shifted => "Trailing line breaks moved out of elements"

def viewDescription : View → String
  | .drawing => "Tree visualization"
  | .json => "JSON output"

/-- A line of a listing, with the names padded to one width. -/
def listingLine (name description : String) : String :=
  "  " ++ name ++ String.ofList (spaces (9 - name.length)) ++ " - " ++ description ++ "\n"

def transformListing : String :=
  "Available transforms:\n\n" ++
    "Stages:\n" ++
    String.join (Stage.all.map fun stage => listingLine stage.name (stageDescription stage)) ++
    "\nFormats:\n" ++
    String.join (View.all.map fun view => listingLine view.name (viewDescription view)) ++ "\n" ++
    "Available transform combinations:\n" ++
    String.join (Transform.names.map fun name => "  " ++ name ++ "\n")

def tagListing : String :=
  String.join (HandlerTable.standard.tags.map fun tag => tag ++ "\n")

/-! ## Settings -/

/-- The file of settings that is read wherever it exists. -/
def settingsPath : String := "xmldoc.toml"

def settingsEnding : String := ".toml"

/-- The text of a settings file, under its name or else under its name with the ending. -/
def settingsText? (readFile : String → Except FileError String) (path : String) : Option String :=
  match readFile path with
  | .ok text => some text
  | .error _ => (Path.withEnding? path settingsEnding).bind fun path => (readFile path).toOption

/-- The settings of a run. -/
def loadSettings (readFile : String → Except FileError String) (config : Option String) :
    Except SettingsError Settings :=
  let file (required : Bool) (path : String) : Layer :=
    .file { contents := settingsText? readFile path, required }
  (Layers.ofList (file false settingsPath :: config.toList.map (file true))).build

/-! ## Runs -/

def readDeclarations (readFile : String → Except FileError String) (path : String) :
    Except Failure (List Declaration) :=
  match readFile path with
  | .error error => .error (.reading path error)
  | .ok text =>
    match Declaration.listOfText text.toList with
    | .error error => .error (.input error)
    | .ok declarations => .ok declarations

/-- Does a task under settings whose log level has been raised. -/
def runTask (readFile : String → Except FileError String) (settings : Settings) (task : Task) :
    Outcome :=
  let told (warnings : List Diagnostic) := if settings.level.tellsWarnings then warnings else []
  match task with
  | .inspect path transform =>
    match readDeclarations readFile path with
    | .error failure => .failed failure []
    | .ok declarations =>
      match Declaration.displayNamed settings.options transform declarations with
      | .error error => .failed (.transform error) []
      | .ok text =>
        .printed (String.ofList text) (told (declarations.flatMap Declaration.treeWarnings))
  | .convert input output =>
    match readDeclarations readFile input with
    | .error failure => .failed failure []
    | .ok declarations =>
      let text := String.ofList (Declaration.writeAll settings.options declarations)
      let warnings := told (declarations.flatMap (Declaration.writeWarnings settings.options))
      match output with
      | none => .printed text warnings
      | some path => .written path text warnings

/-- Answers a request; settings are loaded before anything else, and listings go before tasks. -/
def answer (readFile : String → Except FileError String) (request : Request) : Outcome :=
  match loadSettings readFile request.config with
  | .error error => .failed (.settings error) []
  | .ok settings =>
    if request.listTransforms then .printed transformListing []
    else if request.listTags then .printed tagListing []
    else
      match request.task with
      | none => .failed .noCommand []
      | some task =>
        runTask readFile { settings with level := settings.level.raised request.debug } task

/-- What a run comes to, before anything is written. -/
def run (readFile : String → Except FileError String) (arguments : List String) : Outcome :=
  match read arguments with
  | .error .usage => .usage
  | .error (.help level) => .help level
  | .error .version => .version
  | .ok request => answer readFile request

/-- The paths that a run may read. -/
def readPaths (arguments : List String) : List String :=
  match read arguments with
  | .error _ => []
  | .ok request =>
    let settings := settingsPath :: request.config.toList
    let input :=
      match request.task with
      | some (.inspect path _) => [path]
      | some (.convert path _) => [path]
      | none => []
    settings ++ settings.filterMap (Path.withEnding? · settingsEnding) ++ input

/-- A run on files, and the files afterwards. -/
def runOn {Files : Type} (system : FileSystem Files) (before : Files) (arguments : List String) :
    Outcome × Files :=
  match run (system.readFile before) arguments with
  | .written path text warnings =>
    match system.writeFile before path text with
    | .ok after => (.written path text warnings, after)
    | .error error => (.failed (.writing path error) warnings, before)
  | outcome => (outcome, before)

/-- A run in a directory, and the directory afterwards. -/
def runIn (directory : Directory) (arguments : List String) : Outcome × Directory :=
  runOn Directory.system directory arguments

end DocComment.CommandLine
