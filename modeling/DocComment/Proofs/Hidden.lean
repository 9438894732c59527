import DocComment.Proofs.Leaves
import DocComment.Proofs.Pairwise
import DocComment.Proofs.Preparation

/-!
# What is hidden stays hidden

Two runs are compared. Top-level nodes that are bound to be dropped can be exchanged for others of
the kind without a trace in any later stage. When a tree is written, nothing is seen of the children
of a node without an entry, nor of what a parameter out of scope holds behind its name.
-/

namespace DocComment

open HandlerTable (standard)

namespace Node

variable (table : HandlerTable) (scope : Scope)

section Dropped

/-- A top-level node that is bound to be dropped: neither a marker nor a part of the description, it
has no handler or is a `param` whose first child names no known parameter. -/
structure IsDoomed (node : Node) : Prop where
  notMarker : node.isMarker = false
  notDescription : node.isDescription = false
  unwritable : table.supports node.tag = false ∨
    baseCommand node.tag = "param" ∧ ∀ first ∈ node.children.head?, scope first.data = false

/-- Two nodes at one place of two top-level lists. -/
def EqualOrDoomed (node other : Node) : Prop :=
  node = other ∨ IsDoomed table scope node ∧ IsDoomed table scope other

variable {table scope}

theorem IsDoomed.isWritable {node : Node} (h : IsDoomed table scope node) :
    isWritable table scope node = false := by
  rw [Node.isWritable, Bool.and_eq_false_iff]
  rcases h.unwritable with hsupports | ⟨hparam, hunknown⟩
  · exact .inl hsupports
  · right
    have hsubject : node.subject?.any scope = false := by
      rw [subject?, Option.any_map, Option.any_eq_false]
      intro first hf
      simp [hunknown first hf]
    rw [hparam, hsubject]
    rfl

/-- Neither the stripping of markers nor the pooling tells doomed nodes apart, and no filter lets
them pass. -/
theorem filtered_eq_of_forall₂ {nodes others : List Node}
    (h : List.Forall₂ (EqualOrDoomed table scope) nodes others) :
    filtered table scope nodes = filtered table scope others := by
  have hstripped : List.Forall₂ (EqualOrDoomed table scope) (stripLeadingMarkers nodes)
      (stripLeadingMarkers others) := by
    refine forall₂_dropWhile h ?_
    rintro node other (rfl | ⟨hn, ho⟩)
    · rfl
    · rw [hn.notMarker, ho.notMarker]
  have hpooled : (stripLeadingMarkers nodes).filter isDescription =
      (stripLeadingMarkers others).filter isDescription :=
    filter_eq_of_forall₂ hstripped fun node other hno =>
      hno.imp_right fun h => ⟨h.1.notDescription, h.2.notDescription⟩
  have hrest : ((stripLeadingMarkers nodes).filter (!isDescription ·)).filter
      (isWritable table scope) =
      ((stripLeadingMarkers others).filter (!isDescription ·)).filter (isWritable table scope) := by
    rw [List.filter_filter, List.filter_filter]
    refine filter_eq_of_forall₂ hstripped fun node other hno => hno.imp_right fun h => ?_
    rw [h.1.isWritable, h.2.isWritable]
    exact ⟨rfl, rfl⟩
  simp only [filtered, keepWritable, poolSummary, hpooled, List.filter_cons, hrest]

end Dropped

section Written

/-- Two nodes that differ at most in what is hidden, at any number of places at and below them. -/
inductive Alike : Node → Node → Prop
  /-- Without an entry the children can be any. -/
  | unregistered {node : Node} (children : List Node) (h : table.supports node.tag = false) :
      Alike node { node with children := children }
  /-- A parameter out of scope can hold anything behind its name. -/
  | unknownParameter {node first first' : Node} {rest : List Node} {entry : Entry}
      (rest' : List Node) (hlookup : table.lookup node.tag = some entry)
      (hparameter : entry.handler = .parameter) (hchildren : node.children = first :: rest)
      (hunknown : scope first.data = false) (hfirst : Alike first first') :
      Alike node { node with children := first' :: rest' }
  | inside {node : Node} {children : List Node} (h : List.Forall₂ Alike node.children children) :
      Alike node { node with children := children }

variable {table scope}

theorem Alike.refl (node : Node) : Alike table scope node node := by
  induction node using Node.induction with
  | _ node ih =>
    obtain ⟨tag, data, children, isLeaf⟩ := node
    exact .inside (List.forall₂_same.2 ih)

theorem Alike.data_eq {node other : Node} (h : Alike table scope node other) :
    node.data = other.data := by
  cases h <;> rfl

theorem render_of_not_supports {node : Node} (h : table.supports node.tag = false) :
    node.render table scope = [] := by
  rw [HandlerTable.supports, Option.isSome_eq_false_iff, Option.isNone_iff_eq_none] at h
  rw [render_eq, h]

/-- A parameter out of scope is not described. -/
theorem write_unknownParameter {entry : Entry} {node first : Node} {rest : List Node}
    (hparameter : entry.handler = .parameter) (hchildren : node.children = first :: rest)
    (hunknown : scope first.data = false) (pieces : List Text) :
    entry.write scope node pieces = [] := by
  simp [Entry.write, hparameter, hchildren, hunknown]

/-- What is hidden of a node, or below it, does not show in its text. -/
theorem render_eq_of_alike {node other : Node} (h : Alike table scope node other) :
    node.render table scope = other.render table scope := by
  induction node using Node.induction generalizing other with
  | _ node ih =>
    cases h with
    | unregistered children hsupports =>
      have hother : table.supports ({ node with children := children } : Node).tag = false :=
        hsupports
      rw [render_of_not_supports hsupports, render_of_not_supports hother]
    | @unknownParameter _ first first' rest entry rest' hlookup hparameter hchildren
      hunknown hfirst =>
      have hunknown' : scope first'.data = false := hfirst.data_eq ▸ hunknown
      rw [render_eq, render_eq, hlookup]
      exact (write_unknownParameter hparameter hchildren hunknown _).trans
        (write_unknownParameter hparameter (by rfl) hunknown' _).symm
    | @inside _ children hchildren =>
      -- the handlers that look at the children themselves see their number and their data
      have hpieces := map_eq_of_forall₂ hchildren fun child hc other => ih child hc
      have hdata := map_eq_of_forall₂ hchildren fun child _ other h => Alike.data_eq h
      rw [render_eq, render_eq]
      cases table.lookup node.tag with
      | none => rfl
      | some entry =>
        simp only [hpieces]
        exact Entry.write_congr (by rfl) (by rfl) (by rfl) hdata _

variable (table scope)

/-- Alike nodes are written alike, and so are the contents of roots that hold alike nodes. A root is
not written itself, so it hides nothing of what it holds. -/
theorem alike_trees_same_text :
    (∀ node other, Alike table scope node other →
        node.render table scope = other.render table scope) ∧
      ∀ root other : Node, root.isLeaf = other.isLeaf →
        List.Forall₂ (Alike table scope) root.children other.children →
        root.renderBody table scope = other.renderBody table scope := by
  refine ⟨fun node other h => render_eq_of_alike h, fun root other hleaf hchildren => ?_⟩
  have hpieces := map_eq_of_forall₂ hchildren fun child _ other h => render_eq_of_alike h
  rw [renderBody, renderBody, hleaf, renderAll, renderAll, List.flatMap_def, List.flatMap_def,
    hpieces]

/-- A section with an unknown command, a parameter out of scope and one in scope. -/
def hidingSection (hidden : List Node) : Node :=
  { tag := "returns", children := [
      .text "kept",
      { tag := "details", children := hidden },
      { tag := "param[in]", children := .text "y" :: hidden },
      { tag := "param", children := [.text "x", { tag := "internal", children := hidden }] }] }

theorem alike_hidingSection (hidden hidden' : List Node) :
    Alike standard (Scope.ofNames ["x"]) (hidingSection hidden) (hidingSection hidden') := by
  have hunregistered : ∀ tag ∈ ["details", "internal"], standard.supports tag = false := by
    simp only [HandlerTable.supports, HandlerTable.lookup_standard]
    decide +kernel
  have hparam : standard.lookup "param[in]" = some ⟨.parameter, ""⟩ := by
    rw [HandlerTable.lookup_standard]
    decide +kernel
  refine .inside
    (.cons (.refl _) (.cons ?_ (.cons ?_ (.cons (.inside (.cons (.refl _) (.cons ?_ .nil))) .nil))))
  · exact .unregistered hidden' (hunregistered "details" (by decide))
  · exact .unknownParameter hidden' hparam rfl rfl (by decide) (.refl _)
  · exact .unregistered hidden' (hunregistered "internal" (by decide))

theorem alike_trees_same_text_hidingSection :
    List.Forall₂ (Alike standard (Scope.ofNames ["x"])) (root [hidingSection []]).children
        (root [hidingSection [.text "secret", marker]]).children ∧
      (root [hidingSection []]).renderBody standard (Scope.ofNames ["x"]) =
        (root [hidingSection [.text "secret", marker]]).renderBody standard (Scope.ofNames ["x"]) ∧
      (hidingSection []).render standard (Scope.ofNames ["x"]) =
        (hidingSection [.text "secret", marker]).render standard (Scope.ofNames ["x"]) := by
  have h := alike_hidingSection [] [.text "secret", marker]
  have hsame := alike_trees_same_text standard (Scope.ofNames ["x"])
  exact ⟨.cons h .nil, hsame.2 _ _ rfl (.cons h .nil), hsame.1 _ _ h⟩

end Written

end Node

namespace Declaration

/-- Doomed nodes can be exchanged for doomed nodes: the tree is the same as soon as it is filtered,
and so is the comment. -/
theorem doomed_nodes_leak_nothing (table : HandlerTable) (options : Options)
    (declaration : Declaration) {others : List Node}
    (h : List.Forall₂ (Node.EqualOrDoomed table (declaration.scope options))
      declaration.tree others) :
    (∀ stage, stage = .filtered ∨ stage = .shifted →
        Node.atStage table (declaration.scope options) declaration.tree stage =
          Node.atStage table (declaration.scope options) others stage) ∧
      declaration.write table options =
        { declaration with tree := others }.write table options := by
  have hfiltered := Node.filtered_eq_of_forall₂ h
  have hshifted : Node.atStage table (declaration.scope options) declaration.tree .shifted =
      Node.atStage table (declaration.scope options) others .shifted :=
    congrArg (fun nodes => Node.trimMarkers (Node.shiftMarkers (Node.root nodes))) hfiltered
  refine ⟨?_, ?_⟩
  · rintro stage (rfl | rfl)
    · exact congrArg Node.root hfiltered
    · exact hshifted
  · have hscope : { declaration with tree := others }.scope options = declaration.scope options :=
      rfl
    simp only [write, hscope, hshifted]
    rfl

/-- A description with an unknown command and an unknown parameter between its paragraphs. -/
def withHiddenParts (hidden : List Node) : Declaration where
  name := "f"
  parameters := ["x"]
  comment := some "raw"
  tree := [
    .marker,
    { tag := "brief", children := [.text "Brief."] },
    { tag := "details", data := "note", children := hidden },
    { tag := "partofdescription", children := [.text "More."] },
    { tag := "param", children := .text "y" :: hidden },
    { tag := "param", children := [.text "x", .text "first"] }]

theorem doomed_nodes_leak_nothing_withHiddenParts :
    List.Forall₂ (Node.EqualOrDoomed .standard ((withHiddenParts []).scope {}))
      (withHiddenParts []).tree
        (withHiddenParts [.text "secret", .marker]).tree ∧
      (withHiddenParts []).write .standard {} =
        (withHiddenParts [.text "secret", .marker]).write .standard {} := by
  have hdetails : HandlerTable.standard.supports "details" = false := by
    rw [HandlerTable.supports, HandlerTable.lookup_standard]
    decide +kernel
  have h : List.Forall₂ (Node.EqualOrDoomed .standard ((withHiddenParts []).scope {}))
      (withHiddenParts []).tree (withHiddenParts [.text "secret", .marker]).tree := by
    refine .cons (.inl rfl) (.cons (.inl rfl) (.cons (.inr ⟨?_, ?_⟩) (.cons (.inl rfl)
      (.cons (.inr ⟨?_, ?_⟩) (.cons (.inl rfl) .nil)))))
    · exact ⟨rfl, rfl, .inl hdetails⟩
    · exact ⟨rfl, rfl, .inl hdetails⟩
    · exact ⟨rfl, rfl, .inr ⟨rfl, by decide⟩⟩
    · exact ⟨rfl, rfl, .inr ⟨rfl, by decide⟩⟩
  exact ⟨h, (doomed_nodes_leak_nothing .standard {} (withHiddenParts []) h).2⟩

end Declaration

end DocComment
