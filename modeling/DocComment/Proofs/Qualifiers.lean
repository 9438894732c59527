import DocComment.Proofs.Leaves
import DocComment.Proofs.Pairwise
import DocComment.Proofs.Preparation

/-!
# Commands without their qualifiers

Descriptions and markers are known by the whole tag, entries and parameters by its base command. No
qualifier belongs to a name that is compared as a whole, so every pass goes on as before when the
qualifiers are taken off a tree. The standard table prints no tag that can have one, and the comment
is the same.
-/

namespace DocComment

open HandlerTable (standard)

/-- A name that takes no qualifier is the base of no other tag. -/
theorem baseCommand_eq_iff {tag name : String} (hparam : name ≠ "param") (hcode : name ≠ "code")
    (hname : baseCommand name = name) : baseCommand tag = name ↔ tag = name := by
  constructor
  · intro h
    rw [← h]
    exact (baseCommand_eq_self (h.trans_ne hparam) (h.trans_ne hcode)).symm
  · rintro rfl
    exact hname

namespace Node

mutual

/-- The node with the base command for each tag, here and below. -/
def unqualified : Node → Node
  | ⟨tag, data, children, isLeaf⟩ => ⟨baseCommand tag, data, unqualifiedEach children, isLeaf⟩

def unqualifiedEach : List Node → List Node
  | [] => []
  | node :: rest => unqualified node :: unqualifiedEach rest

end

theorem unqualifiedEach_eq_map (nodes : List Node) :
    unqualifiedEach nodes = nodes.map unqualified := by
  induction nodes with
  | nil => rfl
  | cons node rest ih => rw [unqualifiedEach, ih, List.map_cons]

theorem unqualified_eq (node : Node) :
    node.unqualified =
      { node with tag := baseCommand node.tag, children := node.children.map unqualified } := by
  obtain ⟨tag, data, children, isLeaf⟩ := node
  rw [unqualified, unqualifiedEach_eq_map]

@[simp] theorem unqualified_tag (node : Node) : node.unqualified.tag = baseCommand node.tag := by
  rw [unqualified_eq]

@[simp] theorem unqualified_data (node : Node) : node.unqualified.data = node.data := by
  rw [unqualified_eq]

@[simp] theorem unqualified_children (node : Node) :
    node.unqualified.children = node.children.map unqualified := by
  rw [unqualified_eq]

/-- Nodes that differ at most in the qualifiers of tags, at any number of places at and below
them. -/
inductive SameCommands : Node → Node → Prop
  | intro {node other : Node} (tag : baseCommand node.tag = baseCommand other.tag)
      (data : node.data = other.data) (isLeaf : node.isLeaf = other.isLeaf)
      (children : List.Forall₂ SameCommands node.children other.children) : SameCommands node other

theorem SameCommands.unqualified_eq {node other : Node} (h : SameCommands node other) :
    node.unqualified = other.unqualified := by
  induction node using Node.induction generalizing other with
  | _ node ih =>
    obtain ⟨htag, hdata, hleaf, hchildren⟩ := h
    have hbelow : node.children.map unqualified = other.children.map unqualified :=
      map_eq_of_forall₂ hchildren fun child hc other h => ih child hc h
    rw [Node.unqualified_eq, Node.unqualified_eq, htag, hdata, hleaf, hbelow]

/-- Nodes have the same commands exactly if they are the same without their qualifiers. -/
theorem sameCommands_iff {node other : Node} :
    SameCommands node other ↔ node.unqualified = other.unqualified := by
  refine ⟨SameCommands.unqualified_eq, fun h => ?_⟩
  induction node using Node.induction generalizing other with
  | _ node ih =>
    rw [unqualified_eq, unqualified_eq, Node.mk.injEq] at h
    obtain ⟨htag, hdata, hchildren, hleaf⟩ := h
    rw [← List.forall₂_eq_eq_eq, List.forall₂_map_left_iff, List.forall₂_map_right_iff] at hchildren
    exact .intro htag hdata hleaf
      (forall₂_imp_of_mem (fun child hc other h => ih child hc h) hchildren)

section Passes

/-! ## The passes -/

@[simp] theorem isMarker_unqualified (node : Node) : node.unqualified.isMarker = node.isMarker := by
  have htag : baseCommand node.tag = markerTag ↔ node.tag = markerTag :=
    baseCommand_eq_iff (by decide) (by decide) (by decide +kernel)
  rw [isMarker, isMarker, unqualified_tag, Bool.eq_iff_iff, beq_iff_eq, beq_iff_eq, htag]

@[simp] theorem isDescription_unqualified (node : Node) :
    node.unqualified.isDescription = node.isDescription := by
  have hbrief : baseCommand node.tag = "brief" ↔ node.tag = "brief" :=
    baseCommand_eq_iff (by decide) (by decide) (by decide +kernel)
  have hpart : baseCommand node.tag = "partofdescription" ↔ node.tag = "partofdescription" :=
    baseCommand_eq_iff (by decide) (by decide) (by decide +kernel)
  rw [isDescription, isDescription, unqualified_tag, Bool.eq_iff_iff, Bool.or_eq_true,
    Bool.or_eq_true]
  simp only [beq_iff_eq, hbrief, hpart]

@[simp] theorem subject?_unqualified (node : Node) : node.unqualified.subject? = node.subject? := by
  rw [subject?, subject?, unqualified_children, List.head?_map, Option.map_map]
  exact congrArg (Option.map · _) (funext unqualified_data)

@[simp] theorem unqualified_marker : marker.unqualified = marker := by decide +kernel

theorem isMarker_comp_unqualified : isMarker ∘ unqualified = isMarker := funext isMarker_unqualified

theorem endsInMarker_map_unqualified (nodes : List Node) :
    endsInMarker (nodes.map unqualified) = endsInMarker nodes := by
  rw [endsInMarker, endsInMarker, List.getLast?_map, Option.any_map]
  simp only [isMarker_unqualified]

theorem settleAll_map_unqualified {nodes : List Node}
    (h : ∀ node ∈ nodes, settle node.unqualified = ((settle node).1.unqualified, (settle node).2)) :
    settleAll (nodes.map unqualified) = (settleAll nodes).map unqualified := by
  induction nodes with
  | nil => rfl
  | cons node rest ih =>
    obtain ⟨hnode, hrest⟩ := List.forall_mem_cons.1 h
    rw [List.map_cons, settleAll_cons, settleAll_cons, hnode, ih hrest, List.map_append,
      List.map_cons]
    cases (settle node).2 with
    | false => rfl
    | true => simp

/-- A node gives up the same markers with and without its qualifiers. -/
theorem settle_unqualified (node : Node) :
    settle node.unqualified = ((settle node).1.unqualified, (settle node).2) := by
  induction node using Node.induction with
  | _ node ih =>
    rw [settle_eq, settle_eq, unqualified_children, settleAll_map_unqualified ih,
      endsInMarker_map_unqualified, rdropWhile_map, isMarker_comp_unqualified, unqualified_eq,
      unqualified_eq]

variable (table : HandlerTable) (scope : Scope) (nodes : List Node)

theorem filter_map_unqualified {p : Node → Bool} (h : ∀ node, p node.unqualified = p node) :
    (nodes.map unqualified).filter p = (nodes.filter p).map unqualified := by
  rw [List.filter_map, show p ∘ unqualified = p from funext h]

theorem stripLeadingMarkers_map_unqualified :
    stripLeadingMarkers (nodes.map unqualified) = (stripLeadingMarkers nodes).map unqualified := by
  rw [stripLeadingMarkers, List.dropWhile_map, isMarker_comp_unqualified, stripLeadingMarkers]

theorem summaryOf_map_unqualified :
    summaryOf (nodes.map unqualified) = (summaryOf nodes).unqualified := by
  have htag : baseCommand "summary" = "summary" := by decide +kernel
  rw [unqualified_eq]
  simp only [summaryOf, htag, filter_map_unqualified nodes isDescription_unqualified,
    List.flatMap_map, List.map_flatMap, unqualified_children]

theorem poolSummary_map_unqualified :
    poolSummary (nodes.map unqualified) = (poolSummary nodes).map unqualified := by
  rw [poolSummary_eq, poolSummary_eq, List.map_cons, summaryOf_map_unqualified,
    filter_map_unqualified nodes fun node => by rw [isDescription_unqualified]]

theorem isWritable_unqualified (node : Node) :
    isWritable table scope node.unqualified = isWritable table scope node := by
  rw [isWritable, isWritable, HandlerTable.supports, HandlerTable.supports, unqualified_tag,
    HandlerTable.lookup_baseCommand, baseCommand_baseCommand, subject?_unqualified]

theorem filtered_map_unqualified :
    filtered table scope (nodes.map unqualified) =
      (filtered table scope nodes).map unqualified := by
  rw [filtered, filtered, stripLeadingMarkers_map_unqualified, poolSummary_map_unqualified,
    keepWritable, keepWritable, filter_map_unqualified _ (isWritable_unqualified table scope)]

/-- What is left at the top when the markers have been shifted and trimmed. -/
theorem children_shifted_map_unqualified :
    (atStage table scope (nodes.map unqualified) .shifted).children =
      (atStage table scope nodes .shifted).children.map unqualified := by
  rw [children_shifted, children_shifted, filtered_map_unqualified,
    settleAll_map_unqualified fun node _ => settle_unqualified node, List.dropWhile_map,
    rdropWhile_map, isMarker_comp_unqualified]

end Passes

section Writing

/-! ## The writer -/

variable {scope : Scope} {node : Node} {entry : Entry}

/-- The standard entries that are found under several tags do not print the tag. -/
theorem write_baseCommand (h : standard.lookup node.tag = some entry) (pieces : List Text) :
    entry.write scope { node with tag := baseCommand node.tag } pieces =
      entry.write scope node pieces := by
  obtain ⟨-, -, hparam, hcode⟩ :=
    HandlerTable.standardEntries_spelled _ (HandlerTable.base_mem_standardEntries h)
  by_cases hp : baseCommand node.tag = "param"
  · have hparameter : entry.handler = .parameter := hparam hp
    simp only [Entry.write, hparameter]
  · by_cases hc : baseCommand node.tag = "code"
    · have hblock : entry.handler = .block := hcode hc
      simp only [Entry.write, hblock]
    · rw [baseCommand_eq_self hp hc]
      rfl

theorem render_unqualified (node : Node) :
    node.unqualified.render standard scope = node.render standard scope := by
  induction node using Node.induction with
  | _ node ih =>
    have hpieces : node.unqualified.children.map (render standard scope) =
        node.children.map (render standard scope) := by
      rw [unqualified_children, List.map_map]
      exact List.map_congr_left ih
    have hdata : node.unqualified.children.map Node.data = node.children.map Node.data := by
      rw [unqualified_children, List.map_map]
      exact List.map_congr_left fun child _ => unqualified_data child
    rw [render_eq, render_eq, unqualified_tag, HandlerTable.lookup_baseCommand, hpieces]
    cases hl : standard.lookup node.tag with
    | none => rfl
    | some entry =>
      dsimp only
      rw [← write_baseCommand hl]
      apply Entry.write_congr
      · exact unqualified_tag node
      · exact unqualified_data node
      · rw [unqualified_eq]
      · exact hdata

theorem renderAll_map_unqualified (nodes : List Node) :
    renderAll standard scope (nodes.map unqualified) = renderAll standard scope nodes := by
  rw [renderAll, renderAll, List.flatMap_map]
  exact congrArg (List.flatMap · nodes) (funext render_unqualified)

theorem renderBody_shifted_map_unqualified (nodes : List Node) :
    (atStage standard scope (nodes.map unqualified) .shifted).renderBody standard scope =
      (atStage standard scope nodes .shifted).renderBody standard scope := by
  rw [renderBody_shifted, renderBody_shifted, children_shifted_map_unqualified,
    renderAll_map_unqualified]

end Writing

end Node

namespace Declaration

theorem write_map_unqualified (options : Options) (declaration : Declaration) :
    { declaration with tree := declaration.tree.map Node.unqualified }.write standard options =
      declaration.write standard options := by
  have hscope : { declaration with tree := declaration.tree.map Node.unqualified }.scope options =
      declaration.scope options := rfl
  have hverbatim :
      { declaration with tree := declaration.tree.map Node.unqualified }.isVerbatim options =
      declaration.isVerbatim options := rfl
  simp only [write, hscope, hverbatim, Node.renderBody_shifted_map_unqualified]

/-- Tags can be exchanged for others of the same base command, here and there or all for the base
command itself, and the comment stays what it is. -/
theorem qualifiers_do_not_show (options : Options) (declaration : Declaration) :
    (∀ others : List Node, List.Forall₂ Node.SameCommands declaration.tree others →
        { declaration with tree := others }.write standard options =
          declaration.write standard options) ∧
      { declaration with tree := declaration.tree.map Node.unqualified }.write standard options =
        declaration.write standard options := by
  refine ⟨fun others h => ?_, write_map_unqualified options declaration⟩
  have htrees : declaration.tree.map Node.unqualified = others.map Node.unqualified :=
    map_eq_of_forall₂ h fun _ _ _ hsame => hsame.unqualified_eq
  calc { declaration with tree := others }.write standard options
    _ = { declaration with tree := others.map Node.unqualified }.write standard options :=
        (write_map_unqualified options { declaration with tree := others }).symm
    _ = { declaration with tree := declaration.tree.map Node.unqualified }.write
          standard options := by
        rw [htrees]
    _ = declaration.write standard options := write_map_unqualified options declaration

/-- A parameter and code under given tags, at the top and further down. -/
def withTags (parameter code : String) : Declaration where
  name := "f"
  parameters := ["x"]
  comment := some "raw"
  tree := [
    { tag := "brief", children := [.text "As in ", { tag := code, children := [.text "x = 1"] }] },
    { tag := parameter, children := [
      .text "x",
      { tag := "b", children := [{ tag := code, data := "y", children := [.marker] }] }] },
    { tag := "returns", children := [
      { tag := parameter, children := [.text "y", .text "unknown"] }] }]

theorem qualifiers_do_not_show_withTags :
    List.Forall₂ Node.SameCommands (withTags "param[in]" "code{.py}").tree
        (withTags "parameter" "codex").tree ∧
      { withTags "param[in]" "code{.py}" with tree := (withTags "parameter" "codex").tree }.write
        standard
          {} =
        (withTags "param[in]" "code{.py}").write standard {} := by
  have hsame : List.Forall₂ Node.SameCommands (withTags "param[in]" "code{.py}").tree
      (withTags "parameter" "codex").tree := by
    refine .cons ?_ (.cons ?_ (.cons ?_ .nil)) <;>
      rw [Node.sameCommands_iff] <;> decide +kernel
  exact ⟨hsame, (qualifiers_do_not_show {} (withTags "param[in]" "code{.py}")).1 _ hsame⟩

end Declaration

end DocComment
