import DocComment.HandlerTable
import DocComment.Scope
import DocComment.Text

/-!
# Trees as XML documentation

A node is written by the entry of its tag from the text that each of its children is written to; a
node without an entry, or one that lacks the children its entry asks for, is written as nothing.
-/

namespace DocComment

/-- A line break and the start of the next comment line. -/
def lineBreak : Text := " \n /// ".toList

def summaryStart : Text := " /// <summary>\n /// ".toList

def summaryEnd : Text := "\n /// </summary>".toList

/-- An element; `name` is given apart from what else stands in the start tag. -/
def element (name attributes body : Text) : Text :=
  '<' :: name ++ attributes ++ '>' :: body ++ '<' :: '/' :: name ++ ['>']

def emptyElement (name attributes : Text) : Text := '<' :: name ++ attributes ++ ['/', '>']

def attr (name value : Text) : Text := ' ' :: name ++ '=' :: '"' :: value ++ ['"']

/-- What may stand at the end of an inline element and is moved behind it. -/
def isTrailing (c : Char) : Bool := c == '\n' || c == '\t' || c == ' '

/-- An inline element, with the blank end of its body behind it. A body that is all blank stays
inside, and one blank keeps the element apart from what follows. -/
def wrapInline (name body : Text) : Text :=
  let kept := dropEndWhile isTrailing body
  if kept.isEmpty then element name [] body ++ [' ']
  else element name [] kept ++ takeEndWhile isTrailing body

/-- The part of a link's data behind its target. -/
def linkLabel (data : Text) : Text := (data.dropWhile (· != ' ')).drop 1

namespace Node

/-- The name of the element that stands for a node. -/
def elementName (node : Node) (argument : String) : Text :=
  (if argument.isEmpty then node.tag else argument).toList

end Node

/-- Writes a node, given what each of its children is written to. -/
def Entry.write (scope : Scope) (entry : Entry) (node : Node) (pieces : List Text) : Text :=
  let argument := entry.argument.toList
  let body := if node.isLeaf then [] else pieces.flatten
  let rest := pieces.tail.flatten
  match entry.handler with
  | .wrap => if node.children.isEmpty then [] else wrapInline argument body
  | .literal => node.elementName entry.argument
  | .element => reflow 2 (element (node.elementName entry.argument) [] body)
  | .crossReference =>
    match node.children with
    | [target] =>
      reflow 2 (emptyElement (node.elementName entry.argument)
        (attr "cref".toList target.data.toList))
    | _ => []
  | .rawTag =>
    if node.data = "/" then
      '<' :: '/' :: (if argument.head? = some '<' then argument.tail else argument) ++ ['>']
    else argument ++ node.data.toList ++ ['>']
  | .characterReference => argument ++ [';']
  | .lineBreak => lineBreak
  | .plainText => node.data.toList
  | .summary => summaryStart ++ reflow 0 body ++ summaryEnd
  | .formula => argument ++ ' ' :: node.children.flatMap (·.data.toList)
  | .block => element argument [] (reflow 0 body)
  | .titledParagraph =>
    match node.children with
    | [] => []
    | title :: _ => element "para".toList (attr "alt".toList title.data.toList) (reflow 0 rest)
  | .parameter =>
    match node.children with
    | [] => []
    | name :: _ =>
      if scope name.data then
        element "param".toList (attr "name".toList name.data.toList) (reflow 0 rest)
      else []
  | .anchorLink =>
    match node.children with
    | [] => []
    | [target] => element ['a'] (attr "href".toList ('#' :: target.data.toList)) target.data.toList
    | target :: label :: _ =>
      element ['a'] (attr "href".toList ('#' :: target.data.toList)) label.data.toList
  | .linkText =>
    match node.children with
    | [] => []
    | target :: _ => linkLabel target.data.toList ++ reflow 0 rest
  | .anchor => element ['a'] (attr "id".toList body) []

namespace Node

mutual

/-- The text of a node. -/
def render (table : HandlerTable) (scope : Scope) : Node → Text
  | ⟨tag, data, children, isLeaf⟩ =>
    match table.lookup tag with
    | none => []
    | some entry =>
      entry.write scope ⟨tag, data, children, isLeaf⟩ (renderEach table scope children)

/-- The texts of several nodes. -/
def renderEach (table : HandlerTable) (scope : Scope) : List Node → List Text
  | [] => []
  | node :: nodes => render table scope node :: renderEach table scope nodes

end

variable (table : HandlerTable) (scope : Scope)

@[simp] theorem renderEach_eq_map (nodes : List Node) :
    renderEach table scope nodes = nodes.map (render table scope) := by
  induction nodes with
  | nil => rfl
  | cons node nodes ih => rw [renderEach, ih, List.map_cons]

/-- The text of a list of nodes. -/
def renderAll (nodes : List Node) : Text := nodes.flatMap (render table scope)

/-- The text of what a node holds; a leaf holds nothing. -/
def renderBody (node : Node) : Text :=
  if node.isLeaf then [] else renderAll table scope node.children

@[simp] theorem renderAll_nil : renderAll table scope [] = [] := rfl

@[simp] theorem renderAll_cons (node : Node) (nodes : List Node) :
    renderAll table scope (node :: nodes) =
      render table scope node ++ renderAll table scope nodes :=
  rfl

@[simp] theorem renderAll_append (nodes more : List Node) :
    renderAll table scope (nodes ++ more) =
      renderAll table scope nodes ++ renderAll table scope more :=
  List.flatMap_append

theorem render_eq (node : Node) :
    render table scope node =
      match table.lookup node.tag with
      | none => []
      | some entry => entry.write scope node (node.children.map (render table scope)) := by
  obtain ⟨tag, data, children, isLeaf⟩ := node
  rw [render, renderEach_eq_map]

end Node

end DocComment
