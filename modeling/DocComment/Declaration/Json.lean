import DocComment.Declaration
import DocComment.Json.Reader
import DocComment.Node.Json

/-!
# Declarations in JSON texts

A text holds one declaration or an array of them. Each structure is given by an object or by an
array of its fields in order, with defaults for what is left out.
-/

namespace DocComment

def listOfJson? {α : Type} (read : Json → Option α) (json : Json) : Option (List α) :=
  json.arr?.bind (List.mapM read)

namespace WarningKind

/-- A kind is given by its name, or by an object with its name as the only member, set to null. -/
def ofJson? : Json → Option WarningKind
  | .str name => ofName? name
  | .obj [(name, .null)] => ofName? name
  | _ => none

end WarningKind

namespace Diagnostic

def fieldNames : List String := ["kind", "message"]

def ofJson? (json : Json) : Option Diagnostic := do
  let given ← json.fields fieldNames
  let kind ← WarningKind.ofJson? (← given "kind")
  let message ← (← given "message").str?
  pure { kind, message }

def toJson (diagnostic : Diagnostic) : Json :=
  .obj [("kind", .str diagnostic.kind.name), ("message", .str diagnostic.message)]

end Diagnostic

namespace Features

def fieldNames : List String := ["notranslate", "nostripparams"]

def ofJson? (json : Json) : Option Features := do
  let given ← json.fields fieldNames
  let notranslate ← (given "notranslate").elim (some false) Json.bool?
  let nostripparams ← (given "nostripparams").elim (some false) Json.bool?
  pure { notranslate, nostripparams }

def toJson (features : Features) : Json :=
  .obj [("notranslate", .bool features.notranslate),
    ("nostripparams", .bool features.nostripparams)]

end Features

namespace Options

/-- Options have no defaults to leave out. -/
def ofJson? (json : Json) : Option Options := do
  let given ← json.fields fieldNames
  let keepUnknownParams ← (← given "keep_unknown_params").bool?
  let verbatim ← (← given "verbatim").bool?
  pure { keepUnknownParams, verbatim }

def toJson (options : Options) : Json :=
  .obj [("keep_unknown_params", .bool options.keepUnknownParams),
    ("verbatim", .bool options.verbatim)]

end Options

namespace Declaration

def fieldNames : List String :=
  ["name", "parameters", "comment", "features", "tree", "diagnostics"]

/-- A comment, or null where there is none. -/
def commentOfJson? : Json → Option (Option String)
  | .null => some none
  | .str comment => some (some comment)
  | _ => none

def ofJson? (json : Json) : Option Declaration := do
  let given ← json.fields fieldNames
  let name ← (← given "name").str?
  let parameters ← (given "parameters").elim (some []) (listOfJson? Json.str?)
  let comment ← (given "comment").elim (some none) commentOfJson?
  let features ← (given "features").elim (some {}) Features.ofJson?
  let tree ← (given "tree").elim (some []) (listOfJson? Node.ofJson?)
  let diagnostics ← (given "diagnostics").elim (some []) (listOfJson? Diagnostic.ofJson?)
  pure { name, parameters, comment, features, tree, diagnostics }

def toJson (declaration : Declaration) : Json :=
  .obj <|
    [("name", .str declaration.name),
      ("parameters", .arr (declaration.parameters.map .str)),
      ("comment", declaration.comment.elim .null .str),
      ("features", declaration.features.toJson),
      ("tree", .arr (declaration.tree.map Node.toJson))] ++
    if declaration.diagnostics.isEmpty then []
    else [("diagnostics", .arr (declaration.diagnostics.map Diagnostic.toJson))]

/-- The declarations a value gives: many in an array, or one. -/
def listOfJson? (json : Json) : Option (List Declaration) :=
  (DocComment.listOfJson? ofJson? json).or ((ofJson? json).map ([·]))

end Declaration

/-- Why a text gives no declarations. -/
inductive InputError where
  | unreadable (error : Json.ReadError)
  | noDeclaration
  deriving DecidableEq, Repr

/-- What is said about a text that gives no declarations. -/
def InputError.message (error : InputError) : String :=
  "Invalid declaration input: " ++
    match error with
    | unreadable error => error.message
    | noDeclaration => "data did not match any variant of untagged enum RecordInput"

namespace Declaration

/-- Reads declarations from a text. A value that gives none is told before anything behind it. -/
def listOfText (text : Text) : Except InputError (List Declaration) :=
  match Json.Reading.strict.readFirst text with
  | .error error => .error (.unreadable error)
  | .ok (json, rest) =>
    match listOfJson? json with
    | none => .error .noDeclaration
    | some declarations =>
      if rest.isEmpty then .ok declarations else .error (.unreadable .malformed)

end Declaration

end DocComment
