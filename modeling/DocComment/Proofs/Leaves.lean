import DocComment.Proofs.Everywhere
import DocComment.Proofs.StandardTable

/-!
# What is written of the children of leaves

A leaf has no body, so the handlers that write a body write nothing of what stands below it. Seven
handlers look at the children themselves and do so at leaves as well. Where no leaf with children
goes to one of these, the children of leaves can be removed from a tree without a trace.
-/

namespace DocComment

open HandlerTable (standard)

/-- Whether a handler takes anything from the children of a node besides its body. -/
def Handler.readsChildren : Handler → Bool
  | .wrap | .crossReference | .formula | .titledParagraph | .parameter | .anchorLink | .linkText =>
    true
  | .literal | .element | .rawTag | .characterReference | .lineBreak | .plainText
    | .summary | .block
  | .anchor => false

/-- Whether leaves of a tag are written without regard to their children. -/
def HandlerTable.hidesLeafChildren (table : HandlerTable) (tag : String) : Bool :=
  (table.lookup tag).all fun entry => !entry.handler.readsChildren

namespace Node

def withoutChildren (node : Node) : Node := { node with children := [] }

@[simp] theorem withoutChildren_tag (node : Node) : node.withoutChildren.tag = node.tag := rfl

theorem withoutChildren_of_nil {node : Node} (h : node.children = []) :
    node.withoutChildren = node :=
  withChildren_eq_self h.symm

/-- A leaf of this tag with something to show for each handler that reads children. -/
def labelledLeaf (tag : String) : Node :=
  { tag := tag, children := [.text " label"], isLeaf := true }

end Node

namespace Entry

variable {scope : Scope} {entry : Entry}

/-- A handler that writes no more than a body writes a leaf as if it had no children. -/
theorem write_withoutChildren {node : Node} (h : entry.handler.readsChildren = false)
    (hleaf : node.isLeaf = true) (pieces : List Text) :
    entry.write scope node pieces = entry.write scope node.withoutChildren [] := by
  obtain ⟨handler, argument⟩ := entry
  cases handler with
  | wrap | crossReference | formula | titledParagraph | parameter | anchorLink | linkText =>
    cases h
  | literal | element | rawTag | characterReference | lineBreak | plainText | summary
    | block | anchor =>
    simp only [write, Node.withoutChildren, Node.elementName, hleaf, if_true]

/-- Each of the others shows a label below a leaf. -/
theorem write_labelledLeaf (h : entry.handler.readsChildren = true) (tag : String)
    (pieces : List Text) :
    entry.write Scope.all (Node.labelledLeaf tag) pieces ≠
      entry.write Scope.all (Node.labelledLeaf tag).withoutChildren [] := by
  obtain ⟨handler, argument⟩ := entry
  cases handler with
  | literal | element | rawTag | characterReference | lineBreak | plainText | summary
    | block | anchor =>
    cases h
  | wrap => simp [write, Node.labelledLeaf, Node.withoutChildren, wrapInline, element]
  | crossReference => simp [write, Node.labelledLeaf, Node.withoutChildren, emptyElement]
  | formula => simp [write, Node.labelledLeaf, Node.withoutChildren, Node.text]
  | titledParagraph => simp [write, Node.labelledLeaf, Node.withoutChildren, element]
  | parameter => simp [write, Node.labelledLeaf, Node.withoutChildren, element, Scope.all]
  | anchorLink => simp [write, Node.labelledLeaf, Node.withoutChildren, element]
  | linkText => simp [write, Node.labelledLeaf, Node.withoutChildren, Node.text, linkLabel]

/-- Besides the texts of its children a node is written from its own data and from theirs. -/
theorem write_congr {node other : Node} (htag : node.tag = other.tag)
    (hdata : node.data = other.data) (hleaf : node.isLeaf = other.isLeaf)
    (hchildren : node.children.map Node.data = other.children.map Node.data) (pieces : List Text) :
    entry.write scope node pieces = entry.write scope other pieces := by
  have hall : node.children.flatMap (·.data.toList) = other.children.flatMap (·.data.toList) := by
    have hflat := congrArg (List.flatMap String.toList) hchildren
    rwa [List.flatMap_map, List.flatMap_map] at hflat
  have hname : node.elementName entry.argument = other.elementName entry.argument := by
    rw [Node.elementName, Node.elementName, htag]
  -- the handlers that read children by position see at most two of them
  obtain ⟨tag, data, children, isLeaf⟩ := node
  obtain ⟨tag', data', children', isLeaf'⟩ := other
  simp only at htag hdata hleaf hchildren hall
  subst htag hdata hleaf
  rcases children with _ | ⟨first, _ | ⟨second, rest⟩⟩ <;>
    rcases children' with _ | ⟨first', _ | ⟨second', rest'⟩⟩ <;>
    simp only [List.map_nil, List.map_cons, List.cons.injEq, reduceCtorEq, and_false] at hchildren
  · rfl
  · cases hh : entry.handler <;>
      simp only [write, hh, List.isEmpty_cons, hall, hname, hchildren.1]
  · cases hh : entry.handler <;>
      simp only [write, hh, List.isEmpty_cons, hall, hname, hchildren.1, hchildren.2.1]

end Entry

namespace Node

mutual

/-- The node without the children of leaves, itself included. -/
def pruneLeaves : Node → Node
  | ⟨tag, data, children, isLeaf⟩ => ⟨tag, data, if isLeaf then [] else pruneEach children, isLeaf⟩

def pruneEach : List Node → List Node
  | [] => []
  | node :: rest => pruneLeaves node :: pruneEach rest

end

/-- The tree without the children of leaves below the root. -/
def pruneBelow (root : Node) : Node := { root with children := pruneEach root.children }

theorem pruneEach_eq_map (nodes : List Node) : pruneEach nodes = nodes.map pruneLeaves := by
  induction nodes with
  | nil => rfl
  | cons node rest ih => rw [pruneEach, ih, List.map_cons]

theorem pruneLeaves_of_leaf {node : Node} (h : node.isLeaf = true) :
    pruneLeaves node = node.withoutChildren := by
  obtain ⟨tag, data, children, isLeaf⟩ := node
  simp only at h
  rw [pruneLeaves, withoutChildren, h]
  rfl

theorem pruneLeaves_of_not_leaf {node : Node} (h : node.isLeaf = false) :
    pruneLeaves node = { node with children := pruneEach node.children } := by
  obtain ⟨tag, data, children, isLeaf⟩ := node
  simp only at h
  rw [pruneLeaves, h]
  rfl

@[simp] theorem pruneLeaves_data (node : Node) : (pruneLeaves node).data = node.data := by
  obtain ⟨tag, data, children, isLeaf⟩ := node
  rw [pruneLeaves]

variable (table : HandlerTable) (scope : Scope)

/-- A leaf with children has a tag whose leaves are written without regard to them. -/
def HidesChildren (node : Node) : Prop :=
  node.isLeaf = true → node.children ≠ [] → table.hidesLeafChildren node.tag = true

theorem render_withoutChildren {node : Node} (hleaf : node.isLeaf = true)
    (h : table.hidesLeafChildren node.tag = true) :
    node.withoutChildren.render table scope = node.render table scope := by
  rw [render_eq, render_eq, withoutChildren_tag]
  rw [HandlerTable.hidesLeafChildren] at h
  cases hl : table.lookup node.tag with
  | none => rfl
  | some entry =>
    have hreads : entry.handler.readsChildren = false := by simpa [hl] using h
    exact (Entry.write_withoutChildren hreads hleaf _).symm

/-- The tags whose leaves are written without regard to their children are the hiding ones. -/
theorem forall_render_withoutChildren_iff (tag : String) :
    (∀ (scope : Scope) (node : Node), node.tag = tag → node.isLeaf = true →
        node.withoutChildren.render table scope = node.render table scope) ↔
      table.hidesLeafChildren tag = true := by
  constructor
  · intro h
    have hlabel := h Scope.all (labelledLeaf tag) rfl rfl
    rw [render_eq, render_eq, withoutChildren_tag,
      show (labelledLeaf tag).tag = tag from rfl] at hlabel
    rw [HandlerTable.hidesLeafChildren]
    cases hl : table.lookup tag with
    | none => rfl
    | some entry =>
      rw [hl] at hlabel
      cases hreads : entry.handler.readsChildren with
      | false => simp [hreads]
      | true => exact absurd hlabel.symm (Entry.write_labelledLeaf hreads tag _)
  · rintro h scope node rfl hleaf
    exact render_withoutChildren table scope hleaf h

theorem map_render_pruneEach {nodes : List Node}
    (h : ∀ node ∈ nodes, (pruneLeaves node).render table scope = node.render table scope) :
    (pruneEach nodes).map (render table scope) = nodes.map (render table scope) := by
  rw [pruneEach_eq_map, List.map_map]
  exact List.map_congr_left h

theorem render_pruneLeaves {node : Node} (h : node.Everywhere (HidesChildren table)) :
    (pruneLeaves node).render table scope = node.render table scope := by
  induction h with
  | @intro node holds inside ih =>
    cases hleaf : node.isLeaf with
    | true =>
      rw [pruneLeaves_of_leaf hleaf]
      by_cases hnil : node.children = []
      · rw [withoutChildren_of_nil hnil]
      · exact render_withoutChildren table scope hleaf (holds hleaf hnil)
    | false =>
      have hpieces := map_render_pruneEach table scope ih
      have hdata : (pruneEach node.children).map Node.data = node.children.map Node.data := by
        rw [pruneEach_eq_map, List.map_map]
        exact List.map_congr_left fun child _ => pruneLeaves_data child
      rw [pruneLeaves_of_not_leaf hleaf, render_eq, render_eq]
      cases table.lookup node.tag with
      | none => rfl
      | some entry =>
        simp only [hpieces]
        exact Entry.write_congr (by rfl) (by rfl) (by rfl) hdata _

/-- Leaves hide their children exactly at the tags whose handlers write no more than a body, and
from a tree in which all leaves with children have such tags the children of leaves can be
removed. -/
theorem leaves_hide_children (table : HandlerTable) :
    (∀ tag, (∀ (scope : Scope) (node : Node), node.tag = tag → node.isLeaf = true →
          node.withoutChildren.render table scope = node.render table scope) ↔
        table.hidesLeafChildren tag = true) ∧
      ∀ (scope : Scope) (root : Node),
        (∀ child ∈ root.children, child.Everywhere (HidesChildren table)) →
        (pruneBelow root).renderBody table scope = root.renderBody table scope := by
  refine ⟨forall_render_withoutChildren_iff table, fun scope root h => ?_⟩
  have hpieces := map_render_pruneEach table scope fun child hc =>
    render_pruneLeaves table scope (h child hc)
  rw [renderBody, renderBody, renderAll, renderAll, List.flatMap_def, List.flatMap_def, pruneBelow,
    hpieces]

/-- A leaf of two kinds with something below it, and one more inside an element. -/
def leavesWithChildren : Node :=
  root [
    { tag := "returns", children := [.text "gone"], isLeaf := true },
    { tag := "b", children := [
        .text "bold",
        { tag := textTag, data := " text", children := [{ tag := "n" }], isLeaf := true }] },
    { tag := "par", children := [.text "Title", .text "body"] }]

theorem leaves_hide_children_leavesWithChildren :
    (∀ child ∈ leavesWithChildren.children, child.Everywhere (HidesChildren standard)) ∧
      (pruneBelow leavesWithChildren).renderBody standard Scope.all =
        leavesWithChildren.renderBody standard Scope.all := by
  have hreturns : standard.hidesLeafChildren "returns" = true := by
    rw [HandlerTable.hidesLeafChildren, HandlerTable.lookup_standard]
    decide +kernel
  have htext : standard.hidesLeafChildren textTag = true := by
    rw [HandlerTable.hidesLeafChildren, HandlerTable.lookup_textTag]
    rfl
  have htags : ∀ child ∈ leavesWithChildren.children, child.Everywhere fun node =>
      node.isLeaf = true → node.children ≠ [] → node.tag = "returns" ∨ node.tag = textTag := by
    decide
  have h : ∀ child ∈ leavesWithChildren.children, child.Everywhere (HidesChildren standard) := by
    intro child hc
    refine (htags child hc).mono fun node hnode hleaf hchildren => ?_
    rcases hnode hleaf hchildren with ht | ht
    · rw [ht, hreturns]
    · rw [ht, htext]
  exact ⟨h, (leaves_hide_children standard).2 Scope.all leavesWithChildren h⟩

/-- A parameter with a description below it, marked as a leaf. -/
def describedLeaf : Node :=
  { tag := "param", children := [.text "x", .text "hidden"], isLeaf := true }

/-- It is described all the same. -/
theorem not_forall_render_withoutChildren :
    ¬ ∀ (table : HandlerTable) (scope : Scope) (node : Node), node.isLeaf = true →
      node.render table scope = node.withoutChildren.render table scope := by
  intro h
  have hlookup : standard.lookup describedLeaf.tag = some ⟨.parameter, ""⟩ := by
    rw [HandlerTable.lookup_standard]
    decide +kernel
  have hwrite : ∀ pieces, Entry.write Scope.all ⟨.parameter, ""⟩ describedLeaf pieces ≠
      Entry.write Scope.all ⟨.parameter, ""⟩ describedLeaf.withoutChildren [] := by
    intro pieces
    simp [Entry.write, describedLeaf, withoutChildren, Scope.all, element]
  have hleaf := h standard Scope.all describedLeaf rfl
  rw [render_eq, render_eq, withoutChildren_tag, hlookup] at hleaf
  exact hwrite _ hleaf

end Node

end DocComment
