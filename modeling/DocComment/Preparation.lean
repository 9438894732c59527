import DocComment.HandlerTable
import DocComment.Node.Markers
import DocComment.Scope

/-!
# Preparing a tree for writing

The paragraphs of the description are pooled in one summary in front, top-level nodes that cannot be
written are dropped, and markers are shifted and trimmed. The stages name the trees in between.
-/

namespace DocComment

inductive Stage where
  /-- The tree as it was read. -/
  | parsed
  /-- The description pooled. -/
  | summary
  /-- What cannot be written dropped. -/
  | filtered
  /-- Ready to be written. -/
  | shifted
  deriving DecidableEq, Repr

namespace Stage

def all : List Stage := [parsed, summary, filtered, shifted]

def name : Stage → String
  | parsed => "parsed"
  | summary => "summary"
  | filtered => "filtered"
  | shifted => "shifted"

def ofName? (name : String) : Option Stage := all.find? fun stage => stage.name == name

@[simp] theorem ofName?_name (stage : Stage) : ofName? stage.name = some stage := by
  cases stage <;> rfl

end Stage

/-- What is said about a name that is no stage's. -/
def unknownStageMessage (name : String) : String := "Unknown stage '" ++ name ++ "'"

namespace Node

/-- A paragraph of the description. -/
def isDescription (node : Node) : Bool := node.tag == "brief" || node.tag == "partofdescription"

/-- The children of all description paragraphs in one summary node, before the other nodes. -/
def poolSummary (nodes : List Node) : List Node :=
  { tag := "summary", children := (nodes.filter isDescription).flatMap children } ::
    nodes.filter (!isDescription ·)

variable (table : HandlerTable) (scope : Scope)

/-- Whether a top-level node can be written: it has a handler, and as a `param` it describes a known
parameter. -/
def isWritable (node : Node) : Bool :=
  table.supports node.tag &&
    (baseCommand node.tag != "param" || node.subject?.any scope)

def keepWritable (nodes : List Node) : List Node := nodes.filter (isWritable table scope)

/-- The tree of a stage, under a root. -/
def atStage (nodes : List Node) : Stage → Node
  | .parsed => root nodes
  | .summary => root (poolSummary (stripLeadingMarkers nodes))
  | .filtered => root (keepWritable table scope (poolSummary (stripLeadingMarkers nodes)))
  | .shifted =>
    trimMarkers
      (shiftMarkers (root (keepWritable table scope (poolSummary (stripLeadingMarkers nodes)))))

end Node

end DocComment
