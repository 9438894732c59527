import DocComment.BlockComment
import DocComment.Diagnostic
import DocComment.Preparation
import DocComment.Render

/-!
# Declarations with a documentation comment

The comment of a declaration is written as XML documentation from its tree, or, on request, framed
as it is; a declaration without a comment gives no text.
-/

namespace DocComment

structure Features where
  notranslate : Bool := false
  nostripparams : Bool := false
  deriving DecidableEq, Repr

structure Declaration where
  name : String
  parameters : List String := []
  comment : Option String := none
  features : Features := {}
  tree : List Node := []
  diagnostics : List Diagnostic := []
  deriving DecidableEq, Repr

/-- Settings for all declarations, beside the features of each. -/
structure Options where
  keepUnknownParams : Bool := false
  verbatim : Bool := false
  deriving DecidableEq, Repr

def Options.fieldNames : List String := ["keep_unknown_params", "verbatim"]

namespace Declaration

variable (table : HandlerTable) (options : Options) (declaration : Declaration)

/-- The parameters a comment may describe; every name if unknown ones are kept. -/
def scope : Scope :=
  if options.keepUnknownParams || declaration.features.nostripparams then Scope.all
  else Scope.ofNames declaration.parameters

/-- Whether the comment is framed and not translated. -/
def isVerbatim : Bool := options.verbatim || declaration.features.notranslate

/-- The tree of a stage, if there is a comment. -/
def treeAt? (stage : Stage) : Option Node :=
  declaration.comment.map fun _ =>
    Node.atStage table (declaration.scope options) declaration.tree stage

/-- The comment block to put before the declaration. -/
def write : Text :=
  match declaration.comment with
  | none => []
  | some raw =>
    if declaration.isVerbatim options then BlockComment.frame raw.toList
    else
      let scope := declaration.scope options
      (Node.atStage table scope declaration.tree .shifted).renderBody table scope ++ ['\n']

/-- The warnings of looking at the tree. -/
def treeWarnings : List Diagnostic :=
  if declaration.comment.isSome then declaration.diagnostics else []

/-- The warnings of writing the comment; a framed comment's tree is not looked at. -/
def writeWarnings : List Diagnostic :=
  if declaration.isVerbatim options then [] else declaration.treeWarnings

end Declaration

end DocComment
