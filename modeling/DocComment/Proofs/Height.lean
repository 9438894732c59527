import DocComment.Proofs.Preparation

/-!
# How high a tree is

The height of a list of nodes is the number of levels in it. Preparing a list raises it only where a
summary is put into an empty one.
-/

namespace DocComment.Node

mutual

/-- The number of levels, the node itself included. -/
def height : Node → Nat
  | ⟨_, _, children, _⟩ => heightEach children + 1

def heightEach : List Node → Nat
  | [] => 0
  | node :: rest => max (height node) (heightEach rest)

end

theorem height_eq (node : Node) : node.height = heightEach node.children + 1 := by
  obtain ⟨tag, data, children, isLeaf⟩ := node
  rw [height]

variable {nodes : List Node}

theorem heightEach_le_iff {n : Nat} : heightEach nodes ≤ n ↔ ∀ node ∈ nodes, node.height ≤ n := by
  induction nodes with
  | nil => simp [heightEach]
  | cons node rest ih => rw [heightEach, Nat.max_le, ih, List.forall_mem_cons]

theorem height_le_heightEach {node : Node} (h : node ∈ nodes) : node.height ≤ heightEach nodes :=
  heightEach_le_iff.1 (Nat.le_refl _) node h

theorem heightEach_mono {others : List Node} (h : ∀ node ∈ nodes, node ∈ others) :
    heightEach nodes ≤ heightEach others :=
  heightEach_le_iff.2 fun node hn => height_le_heightEach (h node hn)

theorem one_le_heightEach {node : Node} (h : node ∈ nodes) : 1 ≤ heightEach nodes := by
  have hnode := height_le_heightEach h
  rw [height_eq] at hnode
  omega

/-- A marker is no higher than the nodes it is put between. -/
theorem heightEach_settleAll_le (h : ∀ node ∈ nodes, (settle node).1.height ≤ node.height) :
    heightEach (settleAll nodes) ≤ heightEach nodes := by
  rw [heightEach_le_iff]
  intro child hc
  obtain rfl | ⟨node, hn, rfl⟩ := mem_settleAll hc
  · cases nodes with
    | nil => cases hc
    | cons node rest => exact one_le_heightEach List.mem_cons_self
  · exact Nat.le_trans (h node hn) (height_le_heightEach hn)

theorem height_settle_le (node : Node) : (settle node).1.height ≤ node.height := by
  induction node using Node.induction with
  | _ node ih =>
    rw [height_eq, height_eq, settle_children, Nat.add_le_add_iff_right]
    have hkept : heightEach ((settleAll node.children).rdropWhile isMarker) ≤
        heightEach (settleAll node.children) :=
      heightEach_mono fun _ hnode => (List.rdropWhile_prefix isMarker _).subset hnode
    exact Nat.le_trans hkept (heightEach_settleAll_le ih)

/-- What is pooled stood as deep before. -/
theorem height_summaryOf_le (nodes : List Node) :
    (summaryOf nodes).height ≤ max 1 (heightEach nodes) := by
  have hpooled : heightEach (summaryOf nodes).children ≤ heightEach nodes - 1 := by
    rw [heightEach_le_iff]
    intro child hc
    obtain ⟨node, hn, hchild⟩ := List.mem_flatMap.1 hc
    have hnode := height_le_heightEach (List.mem_filter.1 hn).1
    have hbelow := height_le_heightEach hchild
    rw [height_eq] at hnode
    omega
  rw [height_eq]
  omega

theorem heightEach_poolSummary_le (nodes : List Node) :
    heightEach (poolSummary nodes) ≤ max 1 (heightEach nodes) := by
  have hrest : heightEach (nodes.filter (!isDescription ·)) ≤ heightEach nodes :=
    heightEach_mono fun _ hn => (List.mem_filter.1 hn).1
  have hsummary := height_summaryOf_le nodes
  rw [poolSummary_eq, heightEach]
  omega

theorem heightEach_stripLeadingMarkers_le (nodes : List Node) :
    heightEach (stripLeadingMarkers nodes) ≤ heightEach nodes :=
  heightEach_mono fun _ => (List.dropWhile_sublist isMarker).mem

theorem heightEach_stripTrailingMarkers_le (nodes : List Node) :
    heightEach (stripTrailingMarkers nodes) ≤ heightEach nodes :=
  heightEach_mono fun _ hnode => (List.rdropWhile_prefix isMarker _).subset hnode

theorem heightEach_keepWritable_le (table : HandlerTable) (scope : Scope) (nodes : List Node) :
    heightEach (keepWritable table scope nodes) ≤ heightEach nodes :=
  heightEach_mono fun _ hn => (List.mem_filter.1 hn).1

theorem heightEach_filtered_le (table : HandlerTable) (scope : Scope) (nodes : List Node) :
    heightEach (filtered table scope nodes) ≤ max 1 (heightEach nodes) := by
  have hstripped := heightEach_stripLeadingMarkers_le nodes
  have hpooled := heightEach_poolSummary_le (stripLeadingMarkers nodes)
  have hkept := heightEach_keepWritable_le table scope (poolSummary (stripLeadingMarkers nodes))
  rw [filtered]
  omega

/-- No stage is higher than the record, or than a summary alone. -/
theorem heightEach_atStage_le (table : HandlerTable) (scope : Scope) (nodes : List Node)
    (stage : Stage) :
    heightEach (atStage table scope nodes stage).children ≤ max 1 (heightEach nodes) := by
  cases stage with
  | parsed => exact Nat.le_max_right _ _
  | summary =>
    have hstripped := heightEach_stripLeadingMarkers_le nodes
    have hpooled := heightEach_poolSummary_le (stripLeadingMarkers nodes)
    show heightEach (poolSummary (stripLeadingMarkers nodes)) ≤ _
    omega
  | filtered => exact heightEach_filtered_le table scope nodes
  | shifted =>
    have hsettled := heightEach_settleAll_le fun node (_ : node ∈ filtered table scope nodes) =>
      height_settle_le node
    have hstart := heightEach_stripLeadingMarkers_le (settleAll (filtered table scope nodes))
    have hend := heightEach_stripTrailingMarkers_le
      (stripLeadingMarkers (settleAll (filtered table scope nodes)))
    exact Nat.le_trans hend (Nat.le_trans hstart
      (Nat.le_trans hsettled (heightEach_filtered_le table scope nodes)))

end DocComment.Node
