import DocComment.Node
import DocComment.Text.Quoted
import DocComment.Text.Unprintable

/-!
# Drawings of trees

A drawing has one line for each node, in the order of a walk from the root. A line shows the name
and the quoted data behind a connector; what stands before the connector tells the levels above
apart.
-/

namespace DocComment.Node

variable (unprintable : Char → Bool)

/-- The name of a node, and its data if it has any. -/
def label (node : Node) : Text :=
  if node.data.isEmpty then node.tag.toList
  else node.tag.toList ++ ' ' :: quote unprintable node.data.toList

def connector (isLast : Bool) : Text := if isLast then ['└', '─'] else ['├', '─']

/-- What stands below a connector, before the lines of the node's children. -/
def stem (isLast : Bool) : Text := if isLast then [' ', ' '] else ['│', ' ']

mutual

/-- The lines of a node below the root and of all nodes below it. -/
def drawBelow (margin : Text) (isLast : Bool) : Node → Text
  | ⟨tag, data, children, isLeaf⟩ =>
    margin ++ connector isLast ++ ' ' :: label unprintable ⟨tag, data, children, isLeaf⟩ ++
      '\n' :: drawEach (margin ++ stem isLast) children

/-- The lines of siblings; the last one has a connector of its own. -/
def drawEach (margin : Text) : List Node → Text
  | [] => []
  | node :: rest => drawBelow margin rest.isEmpty node ++ drawEach margin rest

end

/-- The drawing of a tree. -/
def drawWith (root : Node) : Text :=
  label unprintable root ++ '\n' :: drawEach unprintable [] root.children

/-- The drawing of a tree, with unprintable characters shown by their code. -/
def draw (root : Node) : String := String.ofList (drawWith isUnprintable root)

end DocComment.Node
