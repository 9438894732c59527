import DocComment.Node
import DocComment.Text

/-!
# Blank-line markers

A line break inside an element is read as a marker at the end of the element's children; written
there it would put an empty line before the closing tag. Shifting moves the markers at the end of
each node into its parent, one for each run.
-/

namespace DocComment.Node

/-- Whether the last child is a marker. -/
def endsInMarker (nodes : List Node) : Bool := nodes.getLast?.any isMarker

mutual

/-- A node below the root with its markers shifted, and whether it gave any up. -/
def settle : Node → Node × Bool
  | ⟨tag, data, children, isLeaf⟩ =>
    let settled := settleAll children
    (⟨tag, data, dropEndWhile isMarker settled, isLeaf⟩, endsInMarker settled)

/-- The children with their markers shifted, each followed by one marker if it gave any up. -/
def settleAll : List Node → List Node
  | [] => []
  | node :: rest =>
    let settled := settle node
    if settled.2 then settled.1 :: marker :: settleAll rest else settled.1 :: settleAll rest

end

@[simp] theorem settleAll_nil : settleAll [] = [] := rfl

/-- The tree with no marker at the end of any node but the root. -/
def shiftMarkers (root : Node) : Node := { root with children := settleAll root.children }

def stripLeadingMarkers (nodes : List Node) : List Node := nodes.dropWhile isMarker

def stripTrailingMarkers (nodes : List Node) : List Node := dropEndWhile isMarker nodes

/-- The tree without markers at either end of the root's children. -/
def trimMarkers (root : Node) : Node :=
  { root with children := stripTrailingMarkers (stripLeadingMarkers root.children) }

mutual

/-- Whether some node below this one ends in a marker. -/
def hasTrailingMarkers : Node → Bool
  | ⟨_, _, children, _⟩ => anyTrailingMarkers children

/-- Whether one of the nodes, or a node below them, ends in a marker. -/
def anyTrailingMarkers : List Node → Bool
  | [] => false
  | node :: rest =>
    endsInMarker node.children || hasTrailingMarkers node || anyTrailingMarkers rest

end

end DocComment.Node
