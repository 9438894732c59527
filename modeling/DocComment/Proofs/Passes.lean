import DocComment.HandlerTable.Standard
import DocComment.Proofs.Height

/-!
# Passes in any order

The passes that prepare a tree go over the nodes below its root, and each can be made by itself,
again and in any order. Whatever is made, no leaf gets children, and the nodes get no deeper than
they were, but for the summary that comes even to an empty list.
-/

namespace DocComment.Node

/-- A leaf carries data only. -/
def IsConsistent (node : Node) : Prop := node.isLeaf = true → node.children = []

instance : DecidablePred IsConsistent := fun node =>
  inferInstanceAs (Decidable (node.isLeaf = true → node.children = []))

/-- At no depth a leaf has children. -/
def Consistent (nodes : List Node) : Prop := ∀ node ∈ nodes, node.Everywhere IsConsistent

instance (nodes : List Node) : Decidable (Consistent nodes) :=
  inferInstanceAs (Decidable (∀ node ∈ nodes, node.Everywhere IsConsistent))

/-- A pass over the nodes below a root. -/
inductive Pass where
  | stripLeading
  | pool
  | keepWritable (table : HandlerTable) (scope : Scope)
  | shift
  | trim
  /-- All passes up to a stage. -/
  | prepare (table : HandlerTable) (scope : Scope) (stage : Stage)

/-- The nodes after a pass. -/
def Pass.apply : Pass → List Node → List Node
  | .stripLeading, nodes => stripLeadingMarkers nodes
  | .pool, nodes => poolSummary nodes
  | .keepWritable table scope, nodes => Node.keepWritable table scope nodes
  | .shift, nodes => (shiftMarkers (root nodes)).children
  | .trim, nodes => (trimMarkers (root nodes)).children
  | .prepare table scope stage, nodes => (atStage table scope nodes stage).children

/-- The nodes after one pass after the other. -/
def applyAll (passes : List Pass) (nodes : List Node) : List Node :=
  passes.foldl (fun nodes pass => pass.apply nodes) nodes

theorem applyAll_cons (pass : Pass) (rest : List Pass) (nodes : List Node) :
    applyAll (pass :: rest) nodes = applyAll rest (pass.apply nodes) := rfl

section Everywhere

variable {p : Node → Prop} {nodes : List Node}

theorem everywhere_stripLeadingMarkers (h : ∀ node ∈ nodes, node.Everywhere p) :
    ∀ node ∈ stripLeadingMarkers nodes, node.Everywhere p := fun node hnode =>
  h node ((List.dropWhile_sublist isMarker).mem hnode)

theorem everywhere_poolSummary (hsummary : p (summaryOf nodes))
    (h : ∀ node ∈ nodes, node.Everywhere p) :
    ∀ node ∈ poolSummary nodes, node.Everywhere p := by
  rw [poolSummary_eq, List.forall_mem_cons]
  have hsum := everywhere_summaryOf hsummary fun node hnode _ => (h node hnode).inside
  exact ⟨hsum, fun node hnode => h node (List.mem_filter.1 hnode).1⟩

theorem everywhere_keepWritable (table : HandlerTable) (scope : Scope)
    (h : ∀ node ∈ nodes, node.Everywhere p) :
    ∀ node ∈ keepWritable table scope nodes, node.Everywhere p := fun node hnode =>
  h node (List.mem_filter.1 hnode).1

/-- What markers and summaries have and what settling keeps is kept by every pass. -/
theorem everywhere_apply (hmarker : p marker) (hsummary : ∀ nodes, p (summaryOf nodes))
    (hsettle : ∀ node, p node → p (settle node).1) (pass : Pass)
    (h : ∀ node ∈ nodes, node.Everywhere p) :
    ∀ node ∈ pass.apply nodes, node.Everywhere p := by
  cases pass with
  | stripLeading => exact everywhere_stripLeadingMarkers h
  | pool => exact everywhere_poolSummary (hsummary nodes) h
  | keepWritable table scope => exact everywhere_keepWritable table scope h
  | shift =>
    exact everywhere_settleAll hmarker fun node hnode => (h node hnode).settle hmarker hsettle
  | trim =>
    intro node hnode
    exact everywhere_stripLeadingMarkers h node ((List.rdropWhile_prefix isMarker _).subset hnode)
  | prepare table scope stage =>
    have hpooled := everywhere_poolSummary (hsummary _) (everywhere_stripLeadingMarkers h)
    cases stage with
    | parsed => exact h
    | summary => exact hpooled
    | filtered => exact everywhere_keepWritable table scope hpooled
    | shifted =>
      exact everywhere_shifted_of_everywhere table scope hmarker hsettle (hsummary nodes) h

end Everywhere

theorem isConsistent_marker : marker.IsConsistent := by simp [IsConsistent, marker]

theorem isConsistent_summaryOf (nodes : List Node) : (summaryOf nodes).IsConsistent := by
  simp [IsConsistent, summaryOf]

/-- There is nothing to put markers between in a leaf. -/
theorem isConsistent_settle {node : Node} (h : node.IsConsistent) :
    (settle node).1.IsConsistent := by
  intro hleaf
  rw [settle_isLeaf] at hleaf
  rw [settle_children, h hleaf, settleAll_nil, List.rdropWhile_nil]

theorem Consistent.apply {nodes : List Node} (h : Consistent nodes) (pass : Pass) :
    Consistent (pass.apply nodes) :=
  everywhere_apply isConsistent_marker isConsistent_summaryOf (fun _ => isConsistent_settle) pass h

theorem heightEach_apply_le (pass : Pass) (nodes : List Node) :
    heightEach (pass.apply nodes) ≤ max 1 (heightEach nodes) := by
  have hwithin {n : Nat} (h : n ≤ heightEach nodes) : n ≤ max 1 (heightEach nodes) := by omega
  cases pass with
  | stripLeading => exact hwithin (heightEach_stripLeadingMarkers_le nodes)
  | pool => exact heightEach_poolSummary_le nodes
  | keepWritable table scope => exact hwithin (heightEach_keepWritable_le table scope nodes)
  | shift => exact hwithin (heightEach_settleAll_le fun node _ => height_settle_le node)
  | trim =>
    have hend := heightEach_stripTrailingMarkers_le (stripLeadingMarkers nodes)
    exact hwithin (Nat.le_trans hend (heightEach_stripLeadingMarkers_le nodes))
  | prepare table scope stage => exact heightEach_atStage_le table scope nodes stage

/-! ## Runs of passes -/

theorem Consistent.applyAll {nodes : List Node} (h : Consistent nodes) (passes : List Pass) :
    Consistent (applyAll passes nodes) := by
  induction passes generalizing nodes with
  | nil => exact h
  | cons pass rest ih => exact ih (h.apply pass)

theorem heightEach_applyAll_le (passes : List Pass) (nodes : List Node) :
    heightEach (applyAll passes nodes) ≤ max 1 (heightEach nodes) := by
  induction passes generalizing nodes with
  | nil => exact Nat.le_max_right _ _
  | cons pass rest ih =>
    have hrest := ih (pass.apply nodes)
    have hpass := heightEach_apply_le pass nodes
    rw [applyAll_cons]
    omega

/-- The bound is met by the summary of nothing. -/
example : heightEach (applyAll [.pool] []) = 1 := by decide

/-- Whichever passes are made, in whichever order and how often, no leaf gets children, and the
nodes get no higher than they were or than a summary alone. -/
theorem passes_keep_shape {nodes : List Node} (h : Consistent nodes) (passes : List Pass) :
    Consistent (applyAll passes nodes) ∧
      heightEach (applyAll passes nodes) ≤ max 1 (heightEach nodes) :=
  ⟨h.applyAll passes, heightEach_applyAll_le passes nodes⟩

/-- An item of bold text with markers at its ends, and leaves that are markers or hold a
description. -/
def nestedItem : List Node := [
  { tag := markerTag, isLeaf := true },
  { tag := "brief", children := [
    .text "Items:",
    { tag := "li", children := [{ tag := "b", children := [.text "first", .marker] }, .marker] }] },
  { tag := "param", children := [.text "x", { tag := markerTag, data := "x", isLeaf := true }] },
  { tag := "brief", data := "a leaf", isLeaf := true }]

/-- Passes in an order of their own, with the table changed on the way. -/
def mixedPasses : List Pass := [
  .shift, .pool, .trim, .prepare .standard (Scope.ofNames ["x"]) .shifted, .shift, .pool,
  .keepWritable .empty Scope.all, .prepare .empty Scope.all .summary, .stripLeading]

theorem passes_keep_shape_nestedItem :
    Consistent nestedItem ∧ heightEach nestedItem = 4 ∧
      Consistent (applyAll mixedPasses nestedItem) ∧
      heightEach (applyAll mixedPasses nestedItem) ≤ 4 := by
  have hconsistent : Consistent nestedItem := by decide
  have hheight : heightEach nestedItem = 4 := by decide
  obtain ⟨hafter, hbound⟩ := passes_keep_shape hconsistent mixedPasses
  rw [hheight] at hbound
  exact ⟨hconsistent, hheight, hafter, hbound⟩

end DocComment.Node
