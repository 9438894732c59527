import Mathlib.Data.List.Basic
import DocComment.Proofs.Mentions
import DocComment.Proofs.NormalForm

/-!
# The documented parameters

The scope is asked for a parameter before the markers are shifted, and again when the parameter is
written. In between its section can lose markers at the end and gain one right behind the name, but
nothing comes before the name. So the prepared tree documents the parameters in scope of which the
record says anything, in the order and as often as the record does.
-/

namespace DocComment

open HandlerTable (standard)

/-- The spellings of `param` share one entry. -/
theorem HandlerTable.lookup_of_baseCommand_param {tag : String} (h : baseCommand tag = "param") :
    standard.lookup tag = some ⟨.parameter, ""⟩ := by
  rw [lookup_standard, h]
  decide +kernel

namespace Node

/-- Whether a node holds anything besides markers. -/
def hasContent (node : Node) : Bool := node.children.any (!isMarker ·)

section Mention

variable {node : Node} {name : String}

theorem mention?_eq_some_iff :
    node.mention? = some name ↔ baseCommand node.tag = "param" ∧ node.subject? = some name := by
  rw [mention?]
  split
  · next h => simp [h]
  · next h => simp [h]

theorem mention?_of_tag (h : baseCommand node.tag ≠ "param") : node.mention? = none := if_neg h

theorem mention?_of_isMarker (h : node.isMarker = true) : node.mention? = none := by
  apply mention?_of_tag
  rw [beq_iff_eq.1 h]
  decide +kernel

/-- So mentions can be collected without the markers that are dropped at the ends. -/
theorem toList_mention?_of_isMarker (node : Node) (h : node.isMarker = true) :
    node.mention?.toList = [] := by
  rw [mention?_of_isMarker h, Option.toList_none]

theorem mention?_of_isDescription (h : node.isDescription = true) : node.mention? = none := by
  apply mention?_of_tag
  rw [isDescription, Bool.or_eq_true, beq_iff_eq, beq_iff_eq] at h
  rcases h with h | h <;> rw [h] <;> decide +kernel

theorem mention?_summaryOf (nodes : List Node) : (summaryOf nodes).mention? = none :=
  mention?_of_tag (show baseCommand "summary" ≠ "param" by decide +kernel)

end Mention

section Settling

theorem all_isMarker_settleAll (nodes : List Node) :
    (settleAll nodes).all isMarker = nodes.all isMarker := by
  induction nodes with
  | nil => rfl
  | cons node rest ih =>
    rw [settleAll_cons, List.cons_append, List.all_cons, List.all_append, ih, isMarker_settle,
      List.all_cons]
    cases (settle node).2 <;> rfl

/-- A node that holds markers only gives them all up. -/
theorem children_settle_eq_nil_iff (node : Node) :
    (settle node).1.children = [] ↔ node.hasContent = false := by
  rw [settle_children, List.rdropWhile_eq_nil_iff, ← List.all_eq_true, all_isMarker_settleAll,
    hasContent, List.any_eq_false, List.all_eq_true]
  simp

/-- A node with other children keeps what it mentions. -/
theorem mention?_settle (node : Node) :
    (settle node).1.mention? = if node.hasContent then node.mention? else none := by
  have hsubject := subject?_settle node
  rw [children_settle_eq_nil_iff] at hsubject
  rw [mention?, mention?, settle_tag]
  cases hcontent : node.hasContent with
  | true =>
    obtain hnone | hsame := hsubject
    · rw [hcontent] at hnone
      contradiction
    · rw [hsame]
      rfl
  | false =>
    have hnone : (settle node).1.subject? = none := by
      rw [subject?, (children_settle_eq_nil_iff node).2 hcontent]
      rfl
    rw [hnone, ite_self]
    rfl

theorem filterMap_mention?_settleAll (nodes : List Node) :
    (settleAll nodes).filterMap mention? = (nodes.filter hasContent).filterMap mention? := by
  induction nodes with
  | nil => rfl
  | cons node rest ih =>
    have hgiven : (if (settle node).2 then [marker] else []).filterMap mention? = [] := by
      split
      · rw [List.filterMap_cons_none (mention?_of_isMarker isMarker_marker), List.filterMap_nil]
      · rfl
    rw [settleAll_cons, List.cons_append, List.filterMap_cons, mention?_settle,
      List.filterMap_append, hgiven, ih, List.nil_append, List.filter_cons]
    cases node.hasContent with
    | true => rw [if_pos rfl, if_pos rfl, List.filterMap_cons]
    | false => rfl

end Settling

section Passes

variable (scope : Scope) (nodes : List Node)

/-- Trimming the root takes no mention away. -/
theorem filterMap_mention?_trimmed :
    ((nodes.dropWhile isMarker).rdropWhile isMarker).filterMap mention? =
      nodes.filterMap mention? := by
  rw [List.filterMap_eq_flatMap_toList, List.filterMap_eq_flatMap_toList,
    flatMap_rdropWhile isMarker toList_mention?_of_isMarker,
    flatMap_dropWhile isMarker toList_mention?_of_isMarker]

/-- The filter keeps a `param` if what it mentions is in scope. -/
theorem isWritable_of_mention? {node : Node} {name : String} (h : node.mention? = some name) :
    isWritable standard scope node = scope name := by
  obtain ⟨hparam, hsubject⟩ := mention?_eq_some_iff.1 h
  have hsupports : standard.supports node.tag = true := by
    rw [HandlerTable.supports, HandlerTable.lookup_of_baseCommand_param hparam]
    rfl
  rw [isWritable, hsupports, hparam, hsubject]
  rfl

theorem filterMap_mention?_keepWritable :
    (keepWritable standard scope nodes).filterMap mention? =
      (nodes.filterMap mention?).filter scope := by
  rw [keepWritable, List.filterMap_filter, List.filter_filterMap]
  refine List.filterMap_congr fun node _ => ?_
  cases hm : node.mention? with
  | none => rw [ite_self, Option.filter_none]
  | some name => rw [isWritable_of_mention? scope hm, Option.filter_some]

/-- Pooling the description takes no mention away and brings none. -/
theorem filterMap_mention?_pooled :
    ((poolSummary (stripLeadingMarkers nodes)).filter hasContent).filterMap mention? =
      (nodes.filter hasContent).filterMap mention? := by
  have hsummary (rest : List Node) :
      ((summaryOf nodes :: rest).filter hasContent).filterMap mention? =
        (rest.filter hasContent).filterMap mention? := by
    rw [List.filter_cons]
    split
    · rw [List.filterMap_cons_none (mention?_summaryOf nodes)]
    · rfl
  have hdescription (node : Node) :
      (if !isDescription node then node.mention? else none) = node.mention? := by
    cases h : node.isDescription with
    | false => rfl
    | true => rw [mention?_of_isDescription h, ite_self]
  rw [poolSummary_eq, summaryOf_stripLeadingMarkers, hsummary, List.filter_comm,
    List.filterMap_filter]
  simp only [hdescription]
  rw [List.filterMap_eq_flatMap_toList, List.filterMap_eq_flatMap_toList]
  exact flatMap_filter_dropWhile isMarker toList_mention?_of_isMarker hasContent nodes

/-- The prepared tree mentions at its top what is in scope of what the record mentions there, where
this holds anything. -/
theorem filterMap_mention?_shifted :
    (atStage standard scope nodes .shifted).children.filterMap mention? =
      ((nodes.filter hasContent).filterMap mention?).filter scope := by
  have hkept : (filtered standard scope nodes).filter hasContent =
      keepWritable standard scope ((poolSummary (stripLeadingMarkers nodes)).filter hasContent) :=
    List.filter_comm _ _ _
  rw [children_shifted, filterMap_mention?_trimmed, filterMap_mention?_settleAll, hkept,
    filterMap_mention?_keepWritable, filterMap_mention?_pooled]

end Passes

section Writing

variable {scope : Scope} {node : Node} {nodes : List Node} {name : String}

/-- A known parameter is written as an element that gives its name. -/
theorem render_of_mention? (h : node.mention? = some name) (hknown : scope name = true) :
    ∃ body, node.render standard scope =
      ("<param name=\"" ++ name ++ "\">").toList ++ body ++ "</param>".toList := by
  obtain ⟨hparam, hsubject⟩ := mention?_eq_some_iff.1 h
  obtain ⟨first, hfirst, rfl⟩ := Option.map_eq_some_iff.1 hsubject
  obtain ⟨rest, hchildren⟩ := List.head?_eq_some_iff.1 hfirst
  refine ⟨renderAll standard scope rest, ?_⟩
  rw [render_eq, HandlerTable.lookup_of_baseCommand_param hparam]
  simp [Entry.write, hchildren, hknown, element, attr, renderAll, List.flatMap_def]

/-- A section that names nothing is left out. -/
theorem render_of_param_of_mention?_none (hparam : baseCommand node.tag = "param")
    (h : node.mention? = none) : node.render standard scope = [] := by
  rw [mention?, if_pos hparam, subject?, Option.map_eq_none_iff, List.head?_eq_none_iff] at h
  rw [render_eq, HandlerTable.lookup_of_baseCommand_param hparam]
  simp [Entry.write, h]

/-- What the prepared tree mentions at its top is in scope. -/
theorem known_of_mem_shifted (hnode : node ∈ (atStage standard scope nodes .shifted).children)
    (h : node.mention? = some name) : scope name = true := by
  have hname : name ∈ (atStage standard scope nodes .shifted).children.filterMap mention? :=
    List.mem_filterMap.2 ⟨node, hnode, h⟩
  rw [filterMap_mention?_shifted] at hname
  exact (List.mem_filter.1 hname).2

end Writing

/-- The parameters that the prepared tree documents at its top are those in scope that the record
mentions there with anything but markers, in the same order and as often. Each of them is written as
one element of its name, and a `param` that is left without a name as nothing. -/
theorem documented_parameters_exact (options : Options) (declaration : Declaration) :
    ((atStage standard (declaration.scope options) declaration.tree .shifted).children.filterMap
      mention? =
      ((declaration.tree.filter hasContent).filterMap mention?).filter
        (declaration.scope options)) ∧
    ∀ node ∈ (atStage standard (declaration.scope options) declaration.tree .shifted).children,
      (∀ name, node.mention? = some name →
        ∃ body, node.render standard (declaration.scope options) =
          ("<param name=\"" ++ name ++ "\">").toList ++ body ++ "</param>".toList) ∧
      (baseCommand node.tag = "param" → node.mention? = none →
        node.render standard (declaration.scope options) = []) := by
  refine ⟨filterMap_mention?_shifted _ _,
    fun node hnode => ⟨fun name hname => ?_, fun hparam hnone => ?_⟩⟩
  · exact render_of_mention? hname (known_of_mem_shifted hnode hname)
  · exact render_of_param_of_mention?_none hparam hnone

/-- A parameter said twice, one out of scope, one with markers only, and one whose name ends in a
marker. -/
def repeatedParameter : Declaration where
  name := "f"
  parameters := ["x", "y"]
  comment := some "raw"
  tree := [
    { tag := "param[in]", children := [.text "x", .text "first"] },
    .marker,
    { tag := "param", children := [.text "z", .text "unknown"] },
    { tag := "param", children := [{ tag := markerTag, data := "y" }, .marker] },
    { tag := "parameter", children := [.text "x", .text "again", .marker] },
    { tag := "param", children := [{ tag := "b", data := "y", children := [.marker] }] }]

theorem documented_parameters_exact_repeated :
    (atStage standard (repeatedParameter.scope {}) repeatedParameter.tree
      .shifted).children.filterMap
        mention? = ["x", "x", "y"] ∧
      ∃ node ∈
        (atStage standard (repeatedParameter.scope {}) repeatedParameter.tree .shifted).children,
        node.mention? = some "y" ∧
          ∃ body, node.render standard (repeatedParameter.scope {}) =
            "<param name=\"y\">".toList ++ body ++ "</param>".toList := by
  obtain ⟨hnames, hsections⟩ := documented_parameters_exact {} repeatedParameter
  have hrecord : ((repeatedParameter.tree.filter hasContent).filterMap mention?).filter
      (repeatedParameter.scope {}) = ["x", "x", "y"] := by
    decide +kernel
  rw [hrecord] at hnames
  have hlast : "y" ∈ (atStage standard (repeatedParameter.scope {}) repeatedParameter.tree
      .shifted).children.filterMap mention? := by
    rw [hnames]
    decide
  obtain ⟨node, hnode, hname⟩ := List.mem_filterMap.1 hlast
  exact ⟨hnames, node, hnode, hname, (hsections node hnode).1 "y" hname⟩

end Node

end DocComment
