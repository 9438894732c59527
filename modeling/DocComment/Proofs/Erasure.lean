import DocComment.Proofs.Preparation

/-!
# Preparing a tree, up to its markers

Without its markers a prepared tree is the record with the description pooled in front and with
those top-level nodes that can be written. So no pass changes a node that is no marker, moves it to
another parent or past another node.
-/

namespace DocComment.Node

mutual

/-- The node without the markers below it. -/
def eraseMarkers : Node → Node
  | ⟨tag, data, children, isLeaf⟩ => ⟨tag, data, eraseAllMarkers children, isLeaf⟩

/-- The nodes without markers at any depth; a marker goes with all that it holds. -/
def eraseAllMarkers : List Node → List Node
  | [] => []
  | node :: rest =>
    if node.isMarker then eraseAllMarkers rest else eraseMarkers node :: eraseAllMarkers rest

end

theorem eraseMarkers_eq (node : Node) :
    eraseMarkers node = { node with children := eraseAllMarkers node.children } := by
  obtain ⟨tag, data, children, isLeaf⟩ := node
  rw [eraseMarkers]

/-- What erasing leaves of a single node. -/
def withoutMarkers (node : Node) : List Node := if node.isMarker then [] else [eraseMarkers node]

theorem withoutMarkers_of_isMarker (node : Node) (h : node.isMarker = true) :
    withoutMarkers node = [] :=
  if_pos h

theorem eraseAllMarkers_eq_flatMap (nodes : List Node) :
    eraseAllMarkers nodes = nodes.flatMap withoutMarkers := by
  induction nodes with
  | nil => rw [eraseAllMarkers, List.flatMap_nil]
  | cons node rest ih =>
    rw [eraseAllMarkers, List.flatMap_cons, withoutMarkers, ih]
    split <;> rfl

theorem eraseAllMarkers_settleAll {nodes : List Node}
    (h : ∀ node ∈ nodes, eraseMarkers (settle node).1 = eraseMarkers node) :
    eraseAllMarkers (settleAll nodes) = eraseAllMarkers nodes := by
  induction nodes with
  | nil => rfl
  | cons node rest ih =>
    have hnode : withoutMarkers (settle node).1 = withoutMarkers node := by
      rw [withoutMarkers, withoutMarkers, isMarker_settle, h node List.mem_cons_self]
    have hgiven : (if (settle node).2 then [marker] else []).flatMap withoutMarkers = [] := by
      split <;> rfl
    have hrest := ih fun other ho => h other (List.mem_cons_of_mem _ ho)
    rw [eraseAllMarkers_eq_flatMap, eraseAllMarkers_eq_flatMap] at hrest ⊢
    rw [settleAll_cons, List.cons_append, List.flatMap_cons, List.flatMap_append, hnode, hgiven,
      hrest]
    rfl

/-- Settling a node changes markers only. -/
theorem eraseMarkers_settle (node : Node) : eraseMarkers (settle node).1 = eraseMarkers node := by
  induction node using Node.induction with
  | _ node ih =>
    have hchildren : eraseAllMarkers (settle node).1.children = eraseAllMarkers node.children := by
      rw [settle_children, eraseAllMarkers_eq_flatMap,
        flatMap_rdropWhile isMarker withoutMarkers_of_isMarker, ← eraseAllMarkers_eq_flatMap]
      exact eraseAllMarkers_settleAll ih
    rw [eraseMarkers_eq, eraseMarkers_eq, hchildren, settle_tag, settle_data, settle_isLeaf]

variable (table : HandlerTable) (scope : Scope)

/-- A top-level node is kept if its command is registered and, as a `param`, names a parameter in
scope. -/
def IsKept (node : Node) : Prop :=
  baseCommand node.tag ∈ table.tags ∧
    (baseCommand node.tag = "param" → ∃ name ∈ node.children.head?, scope name.data = true)

instance : DecidablePred (IsKept table scope) := fun _ => inferInstanceAs (Decidable (_ ∧ _))

theorem isWritable_iff (node : Node) :
    isWritable table scope node = true ↔ IsKept table scope node := by
  rw [isWritable, IsKept, Bool.and_eq_true, HandlerTable.supports_iff, Bool.or_eq_true, bne_iff_ne,
    subject?, Option.any_map, Option.any_eq_true]
  exact and_congr_right fun _ => Decidable.imp_iff_not_or.symm

/-- The leading markers that the filter does not see make no difference. -/
theorem eraseAllMarkers_filtered (nodes : List Node) :
    eraseAllMarkers (filtered table scope nodes) =
      eraseAllMarkers ((summaryOf nodes :: nodes.filter (!isDescription ·)).filter
        (isWritable table scope)) := by
  have hrest : eraseAllMarkers (((stripLeadingMarkers nodes).filter (!isDescription ·)).filter
        (isWritable table scope)) =
      eraseAllMarkers ((nodes.filter (!isDescription ·)).filter (isWritable table scope)) := by
    rw [List.filter_filter, List.filter_filter, eraseAllMarkers_eq_flatMap,
      eraseAllMarkers_eq_flatMap]
    exact flatMap_filter_dropWhile isMarker withoutMarkers_of_isMarker _ nodes
  rw [eraseAllMarkers_eq_flatMap, eraseAllMarkers_eq_flatMap] at hrest ⊢
  rw [filtered, keepWritable, poolSummary_eq, summaryOf_stripLeadingMarkers, List.filter_cons,
    List.filter_cons]
  split
  · rw [List.flatMap_cons, List.flatMap_cons, hrest]
  · exact hrest

/-- Up to markers the prepared tree is the summary and the other nodes in their order, as far as
they are kept. -/
theorem eraseAllMarkers_shifted (nodes : List Node) :
    eraseAllMarkers (atStage table scope nodes .shifted).children =
      eraseAllMarkers ((summaryOf nodes :: nodes.filter (!isDescription ·)).filter
        (IsKept table scope ·)) := by
  have hsettled : eraseAllMarkers (settleAll (filtered table scope nodes)) =
      eraseAllMarkers (filtered table scope nodes) :=
    eraseAllMarkers_settleAll fun node _ => eraseMarkers_settle node
  have hkept : isWritable table scope = fun node => decide (IsKept table scope node) := by
    funext node
    rw [Bool.eq_iff_iff, isWritable_iff, decide_eq_true_eq]
  rw [children_shifted, eraseAllMarkers_eq_flatMap,
    flatMap_rdropWhile isMarker withoutMarkers_of_isMarker,
    flatMap_dropWhile isMarker withoutMarkers_of_isMarker, ← eraseAllMarkers_eq_flatMap, hsettled,
    eraseAllMarkers_filtered, hkept]

end DocComment.Node
