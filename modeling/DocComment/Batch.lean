import DocComment.Declaration
import DocComment.HandlerTable.Standard
import DocComment.Json.Printer
import DocComment.Node.Drawing
import DocComment.Node.Json

/-!
# Sections for many declarations

Whole lists of declarations, written or shown with one section for each. Where there are several, a
line with the name opens each section.
-/

namespace DocComment

/-- How a tree is shown. -/
inductive View where
  | drawing
  | json
  deriving DecidableEq, Repr

namespace View

def all : List View := [drawing, json]

def name : View → String
  | drawing => "treeviz"
  | json => "json"

def ofName? (name : String) : Option View := all.find? fun view => view.name == name

def display (view : View) (tree : Node) : Text :=
  match view with
  | drawing => Node.drawWith isUnprintable tree
  | json => tree.toJson.write .indented 0 ++ ['\n']

end View

/-- A stage and a way to show its trees. -/
structure Transform where
  stage : Stage
  view : View
  deriving DecidableEq, Repr

/-- Why a name names no transform. -/
inductive TransformError where
  | unknownTransform (name : String)
  | unknownStage (name : String)
  deriving DecidableEq, Repr

def TransformError.message : TransformError → String
  | unknownTransform name => "Unknown transform: " ++ name
  | unknownStage name => unknownStageMessage name

namespace Transform

def name (transform : Transform) : String := transform.stage.name ++ "-" ++ transform.view.name

def all : List Transform := Stage.all.flatMap fun stage => View.all.map fun view => ⟨stage, view⟩

def names : List String := all.map name

def standard : Transform := ⟨.shifted, .drawing⟩

/-- The transform of a name: a stage and a view, with the last hyphen between them. -/
def ofName (name : String) : Except TransformError Transform :=
  let text := name.toList
  if '-' ∈ text then
    let stageName := String.ofList (dropEndWhile (· != '-') text).dropLast
    match Stage.ofName? stageName with
    | none => .error (.unknownStage stageName)
    | some stage =>
      match View.ofName? (String.ofList (takeEndWhile (· != '-') text)) with
      | none => .error (.unknownTransform name)
      | some view => .ok ⟨stage, view⟩
  else .error (.unknownTransform name)

end Transform

namespace Declaration

/-- The line that opens the section of a declaration. -/
def heading (declaration : Declaration) : Text := "// ".toList ++ declaration.name.toList ++ ['\n']

/-- One section for each declaration, with headings if there are several. -/
def sections (body : Declaration → Text) (declarations : List Declaration) : Text :=
  declarations.flatMap fun declaration =>
    (if declarations.length > 1 then declaration.heading else []) ++ body declaration

/-- The comments of all declarations. -/
def writeAll (options : Options) : List Declaration → Text :=
  sections (write .standard options)

/-- The trees of all declarations; one without a comment has an empty section. -/
def displayAll (options : Options) (transform : Transform) : List Declaration → Text :=
  sections fun declaration =>
    (declaration.treeAt? .standard options transform.stage).elim [] transform.view.display

/-- The trees of all declarations, for a transform given by its name. -/
def displayNamed (options : Options) (name : String) (declarations : List Declaration) :
    Except TransformError Text :=
  (Transform.ofName name).map fun transform => displayAll options transform declarations

end Declaration

end DocComment
