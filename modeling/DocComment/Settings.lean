import DocComment.Declaration
import DocComment.Settings.Path
import DocComment.Settings.Value
import DocComment.Toml.Document

/-!
# Layered settings

Settings are layered from files and single values: the defaults come first, then the files in order,
and then the single values, wherever they stood among the files.
-/

namespace DocComment

structure Settings where
  options : Options
  level : LogLevel
  deriving DecidableEq, Repr

/-- Why there are no settings. -/
inductive SettingsError where
  /-- A key that is no path. -/
  | malformedKey
  /-- A file that has to be there is not. -/
  | missingFile
  /-- A file that is no TOML document. -/
  | malformedFile
  /-- A yes or no is something else. -/
  | notBool
  /-- A table or a level is something else, or lacks something. -/
  | malformedSetting
  deriving DecidableEq, Repr

/-- What is said about settings that there are not. -/
def SettingsError.message : SettingsError → String
  | malformedKey => "malformed key"
  | missingFile => "configuration file not found"
  | malformedFile => "malformed configuration file"
  | notBool => "invalid type: expected a boolean"
  | malformedSetting => "missing or malformed setting"

/-- A file of settings: its text, if it exists. -/
structure SettingsFile where
  contents : Option String
  required : Bool
  deriving DecidableEq, Repr

/-- Something that settings are built from: a file, or a single value with the path it is set at. -/
inductive Layer where
  | file (file : SettingsFile)
  | value (path : List Step) (value : Setting)
  deriving Repr

def Step.lowered : Step → Step
  | key name => key (lowerCase name)
  | index position => index position

/-- The layer of a value with the text of its path. -/
def Layer.ofKey (key : String) (value : Setting) : Except SettingsError Layer :=
  match Path.ofText? key.toList with
  | none => .error .malformedKey
  | some path => .ok (.value (path.map Step.lowered) value)

/-- Everything that settings are built from, by kind. -/
structure Layers where
  files : List SettingsFile := []
  values : List (List Step × Setting) := []
  deriving Repr

namespace Layers

/-- Puts a layer on top. A value at the path of an earlier value takes its place. -/
def add (layers : Layers) : Layer → Layers
  | .file file => { layers with files := layers.files ++ [file] }
  | .value path value => { layers with values := Assoc.put path value layers.values }

def ofList (layers : List Layer) : Layers := layers.foldl add {}

/-- What holds where nothing else is said. -/
def defaults : Setting :=
  .table
    [("convert", .table [("keep_unknown_params", .bool false), ("verbatim", .bool false)]),
      ("logging", .table [("level", .text "warn")])]

/-- Sets an entry of a file, whose key may be a path. -/
def assignEntry (root : Setting) (entry : String × Toml) : Setting :=
  let path := (Path.ofText? entry.1.toList).getD [.key entry.1]
  Setting.assign path (Setting.ofToml entry.2) root

def assignFile (root : Setting) (file : SettingsFile) : Except SettingsError Setting :=
  match file.contents with
  | none => if file.required then .error .missingFile else .ok root
  | some text =>
    match Toml.parse text.toList with
    | none => .error .malformedFile
    | some entries => .ok (entries.foldl assignEntry root)

/-- The tree of all layers. -/
def tree (layers : Layers) : Except SettingsError Setting := do
  let root ← layers.files.foldlM assignFile defaults
  return layers.values.foldl (fun root (path, value) => Setting.assign path value root) root

end Layers

namespace Settings

def boolOf (setting : Setting) : Except SettingsError Bool :=
  match setting.bool? with
  | some value => .ok value
  | none => .error .notBool

def levelOf (setting : Setting) : Except SettingsError LogLevel :=
  match setting.level? with
  | some level => .ok level
  | none => .error .malformedSetting

/-- The fields of a table. -/
def fieldsOf (names : List String) (setting : Setting) :
    Except SettingsError (String → Option Setting) :=
  match setting.fields names with
  | some given => .ok given
  | none => .error .malformedSetting

def demand {α : Type} : Option α → Except SettingsError α
  | some value => .ok value
  | none => .error .malformedSetting

/-- Fields that are given are read before any is missed. -/
def optionsOf (setting : Setting) : Except SettingsError Options := do
  let given ← fieldsOf Options.fieldNames setting
  let keepUnknownParams ← (given "keep_unknown_params").mapM boolOf
  let verbatim ← (given "verbatim").mapM boolOf
  return { keepUnknownParams := ← demand keepUnknownParams, verbatim := ← demand verbatim }

def loggingOf (setting : Setting) : Except SettingsError LogLevel := do
  let given ← fieldsOf ["level"] setting
  let level ← (given "level").mapM levelOf
  demand level

def ofSetting (setting : Setting) : Except SettingsError Settings := do
  let given ← fieldsOf ["convert", "logging"] setting
  let options ← (given "convert").mapM optionsOf
  let level ← (given "logging").mapM loggingOf
  return { options := ← demand options, level := ← demand level }

end Settings

/-- The settings of all layers. -/
def Layers.build (layers : Layers) : Except SettingsError Settings := do
  Settings.ofSetting (← layers.tree)

end DocComment
