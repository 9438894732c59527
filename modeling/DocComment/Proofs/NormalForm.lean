import DocComment.Proofs.Preparation

/-!
# Shifted markers as a normal form

Shifting leaves no node below the root that ends in a marker, and it changes a tree only if there is
one. With the ends of the root trimmed as well a tree is normal: markers that stand there before the
shift make no difference, and to do it all again changes nothing.
-/

namespace DocComment.Node

variable {node root : Node} {nodes : List Node}

/-- The children do not end in a marker. -/
def IsTight (node : Node) : Prop :=
  ∀ last, node.children.getLast? = some last → last.isMarker = false

theorem isTight_iff (node : Node) : node.IsTight ↔ endsInMarker node.children = false :=
  (Option.any_eq_false isMarker node.children.getLast?).symm

theorem isTight_settle (node : Node) : (settle node).1.IsTight := by
  rw [isTight_iff, settle_children]
  exact endsInMarker_rdropWhile _

theorem isTight_marker : marker.IsTight := by simp [IsTight, marker]

/-- A settled node is tight at every depth, whatever it was. -/
theorem everywhere_isTight_settle (node : Node) : (settle node).1.Everywhere IsTight := by
  induction node using Node.induction with
  | _ node ih =>
    refine .intro (isTight_settle node) ?_
    intro child hc
    rw [settle_children] at hc
    exact everywhere_settleAll isTight_marker ih child
      ((List.rdropWhile_prefix isMarker _).subset hc)

theorem everywhere_isTight_settleAll (nodes : List Node) :
    ∀ child ∈ settleAll nodes, child.Everywhere IsTight :=
  everywhere_settleAll isTight_marker fun node _ => everywhere_isTight_settle node

section Search

theorem anyTrailingMarkers_eq_any (nodes : List Node) :
    anyTrailingMarkers nodes =
      nodes.any fun node => endsInMarker node.children || hasTrailingMarkers node := by
  induction nodes with
  | nil => rfl
  | cons node rest ih => rw [anyTrailingMarkers, ih, List.any_cons]

theorem hasTrailingMarkers_eq (node : Node) :
    hasTrailingMarkers node = anyTrailingMarkers node.children := by
  obtain ⟨tag, data, children, isLeaf⟩ := node
  rw [hasTrailingMarkers]

/-- The search finds nothing exactly if every node below the root is tight. -/
theorem hasTrailingMarkers_eq_false_iff (root : Node) :
    hasTrailingMarkers root = false ↔ ∀ child ∈ root.children, child.Everywhere IsTight := by
  induction root using Node.induction with
  | _ root ih =>
    have hchild : ∀ child ∈ root.children,
        (endsInMarker child.children || hasTrailingMarkers child) = false ↔
          child.Everywhere IsTight := by
      intro child hc
      rw [Bool.or_eq_false_iff, ih child hc, ← isTight_iff]
      exact ⟨fun h => .intro h.1 h.2, fun h => ⟨h.holds, h.inside⟩⟩
    rw [hasTrailingMarkers_eq, anyTrailingMarkers_eq_any, List.any_eq_false]
    simp only [Bool.not_eq_true]
    exact forall₂_congr hchild

end Search

section Shift

theorem settleAll_of_settled (h : ∀ node ∈ nodes, settle node = (node, false)) :
    settleAll nodes = nodes := by
  induction nodes with
  | nil => rfl
  | cons node rest ih =>
    rw [settleAll_cons, h node List.mem_cons_self,
      ih fun other ho => h other (List.mem_cons_of_mem _ ho)]
    rfl

/-- A node that is tight at every depth is settled, and gives nothing up. -/
theorem settle_of_everywhere_isTight (h : node.Everywhere IsTight) :
    settle node = (node, false) := by
  induction h with
  | @intro node holds inside ih =>
    have hchildren := settleAll_of_settled ih
    rw [settle_eq, hchildren, (isTight_iff node).1 holds,
      withChildren_eq_self (rdropWhile_eq_self_of_getLast? isMarker holds)]

/-- Shifting leaves no marker at the end of a node below the root. -/
theorem hasTrailingMarkers_shiftMarkers (root : Node) :
    hasTrailingMarkers (shiftMarkers root) = false :=
  (hasTrailingMarkers_eq_false_iff _).2 (everywhere_isTight_settleAll root.children)

theorem shiftMarkers_of_tight (h : ∀ child ∈ root.children, child.Everywhere IsTight) :
    shiftMarkers root = root :=
  withChildren_eq_self
    (settleAll_of_settled fun child hc => settle_of_everywhere_isTight (h child hc))

/-- A tree is shifted already exactly if no node below the root ends in a marker. -/
theorem shiftMarkers_eq_self_iff (root : Node) :
    shiftMarkers root = root ↔ hasTrailingMarkers root = false := by
  constructor
  · intro h
    rw [← h]
    exact hasTrailingMarkers_shiftMarkers root
  · intro h
    exact shiftMarkers_of_tight ((hasTrailingMarkers_eq_false_iff root).1 h)

end Shift

section Normalize

/-- The tree with its markers shifted and the ends of the root trimmed. -/
def normalize (root : Node) : Node := trimMarkers (shiftMarkers root)

/-- No marker stands at the start of the root or at the end of any node. -/
structure IsNormal (root : Node) : Prop where
  first : ∀ child, root.children.head? = some child → child.isMarker = false
  tight : root.Everywhere IsTight

theorem normalize_children (root : Node) :
    (normalize root).children =
      ((settleAll root.children).dropWhile isMarker).rdropWhile isMarker := rfl

theorem isNormal_normalize (root : Node) : (normalize root).IsNormal where
  first := by
    intro child hc
    have hstart : ((settleAll root.children).dropWhile isMarker).head? = some child := by
      rw [normalize_children] at hc
      rw [← List.rdropWhile_append_rtakeWhile (p := isMarker)
          (l := (settleAll root.children).dropWhile isMarker), List.head?_append, hc]
      rfl
    have hnot := List.head?_dropWhile_not isMarker (settleAll root.children)
    rw [hstart] at hnot
    simpa using hnot
  tight := by
    refine .intro ?_ ?_
    · rw [isTight_iff, normalize_children]
      exact endsInMarker_rdropWhile _
    · intro child hc
      rw [normalize_children] at hc
      exact everywhere_isTight_settleAll root.children child
        ((List.dropWhile_sublist isMarker).mem ((List.rdropWhile_prefix isMarker _).subset hc))

/-- A normal tree stays as it is. -/
theorem normalize_of_isNormal (h : root.IsNormal) : normalize root = root := by
  have hfirst : root.children.dropWhile isMarker = root.children := by
    cases hc : root.children with
    | nil => rfl
    | cons child rest =>
      have hchild := h.first child (by rw [hc]; rfl)
      exact List.dropWhile_cons_of_neg (by simp [hchild])
  rw [normalize, shiftMarkers_of_tight h.tight.inside]
  apply withChildren_eq_self
  rw [stripLeadingMarkers, hfirst]
  exact rdropWhile_eq_self_of_getLast? isMarker h.tight.holds

theorem settleAll_append (nodes more : List Node) :
    settleAll (nodes ++ more) = settleAll nodes ++ settleAll more := by
  induction nodes with
  | nil => rfl
  | cons node rest ih =>
    rw [List.cons_append, settleAll_cons, settleAll_cons, ih, List.append_assoc]

theorem isMarker_of_mem_settleAll (h : ∀ node ∈ nodes, node.isMarker = true) :
    ∀ child ∈ settleAll nodes, child.isMarker = true := by
  intro child hc
  obtain rfl | ⟨node, hn, rfl⟩ := mem_settleAll hc
  · rfl
  · rw [isMarker_settle, h node hn]

/-- Markers in front settle to markers in front. -/
theorem dropWhile_settleAll_dropWhile (nodes : List Node) :
    (settleAll (nodes.dropWhile isMarker)).dropWhile isMarker =
      (settleAll nodes).dropWhile isMarker := by
  have hfront : ∀ child ∈ settleAll (nodes.takeWhile isMarker), child.isMarker = true :=
    isMarker_of_mem_settleAll (List.all_eq_true.1 List.all_takeWhile)
  rw [← List.dropWhile_append_of_pos hfront, ← settleAll_append, List.takeWhile_append_dropWhile]

/-- Markers at the end settle to markers at the end. -/
theorem rdropWhile_settleAll_rdropWhile (nodes : List Node) :
    (settleAll (nodes.rdropWhile isMarker)).rdropWhile isMarker =
      (settleAll nodes).rdropWhile isMarker := by
  have hend : ∀ child ∈ settleAll (nodes.rtakeWhile isMarker), child.isMarker = true :=
    isMarker_of_mem_settleAll fun _ => List.mem_rtakeWhile_imp
  rw [← rdropWhile_append_of_all isMarker hend, ← settleAll_append,
    List.rdropWhile_append_rtakeWhile]

/-- What is trimmed before the shift would be trimmed after it. -/
theorem normalize_trimMarkers (root : Node) : normalize (trimMarkers root) = normalize root := by
  have hchildren : (normalize (trimMarkers root)).children = (normalize root).children := by
    let kept := root.children.dropWhile isMarker
    calc ((settleAll (kept.rdropWhile isMarker)).dropWhile isMarker).rdropWhile isMarker
      _ = ((settleAll (kept.rdropWhile isMarker)).rdropWhile isMarker).dropWhile isMarker :=
          rdropWhile_dropWhile isMarker _
      _ = ((settleAll kept).rdropWhile isMarker).dropWhile isMarker := by
          rw [rdropWhile_settleAll_rdropWhile]
      _ = ((settleAll kept).dropWhile isMarker).rdropWhile isMarker :=
          (rdropWhile_dropWhile isMarker _).symm
      _ = ((settleAll root.children).dropWhile isMarker).rdropWhile isMarker := by
          rw [dropWhile_settleAll_dropWhile]
  exact congrArg (fun children => { root with children := children }) hchildren

/-- Shifting and trimming give a normal form. -/
theorem marker_normal_form (root : Node) :
    hasTrailingMarkers (shiftMarkers root) = false ∧
      (shiftMarkers root = root ↔ hasTrailingMarkers root = false) ∧
      shiftMarkers (shiftMarkers root) = shiftMarkers root ∧
      (normalize root).IsNormal ∧
      normalize (normalize root) = normalize root ∧
      normalize (trimMarkers root) = normalize root := by
  refine ⟨hasTrailingMarkers_shiftMarkers root, shiftMarkers_eq_self_iff root, ?_,
    isNormal_normalize root, ?_, normalize_trimMarkers root⟩
  · exact (shiftMarkers_eq_self_iff _).2 (hasTrailingMarkers_shiftMarkers root)
  · exact normalize_of_isNormal (isNormal_normalize root)

end Normalize

end DocComment.Node
