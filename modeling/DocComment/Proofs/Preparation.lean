import DocComment.Declaration
import DocComment.Proofs.Everywhere
import DocComment.Proofs.ListEnds

/-!
# What preparing a tree keeps

The prepared tree holds the settled nodes of the record, one summary and markers. A condition on all
nodes of the record passes to the prepared tree if settling a node keeps it.
-/

namespace DocComment.Node

theorem settle_eq (node : Node) :
    settle node =
      ({ node with children := (settleAll node.children).rdropWhile isMarker },
        endsInMarker (settleAll node.children)) := by
  obtain ⟨tag, data, children, isLeaf⟩ := node
  rfl

@[simp] theorem settle_tag (node : Node) : (settle node).1.tag = node.tag := by rw [settle_eq]

@[simp] theorem settle_data (node : Node) : (settle node).1.data = node.data := by rw [settle_eq]

@[simp] theorem settle_isLeaf (node : Node) : (settle node).1.isLeaf = node.isLeaf := by
  rw [settle_eq]

@[simp] theorem settle_children (node : Node) :
    (settle node).1.children = (settleAll node.children).rdropWhile isMarker := by
  rw [settle_eq]

@[simp] theorem isMarker_settle (node : Node) : (settle node).1.isMarker = node.isMarker := by
  rw [isMarker, settle_tag, isMarker]

theorem settleAll_cons (node : Node) (rest : List Node) :
    settleAll (node :: rest) =
      (settle node).1 :: (if (settle node).2 then [marker] else []) ++ settleAll rest := by
  rw [settleAll]
  by_cases h : (settle node).2 <;> simp [h]

/-- Settled children are the children settled, and markers between them. -/
theorem mem_settleAll {nodes : List Node} {child : Node} (h : child ∈ settleAll nodes) :
    child = marker ∨ ∃ node ∈ nodes, child = (settle node).1 := by
  induction nodes with
  | nil => simp at h
  | cons node rest ih =>
    rw [settleAll_cons, List.cons_append, List.mem_cons, List.mem_append] at h
    rcases h with h | h | h
    · exact .inr ⟨node, List.mem_cons_self, h⟩
    · by_cases hs : (settle node).2 <;> simp [hs] at h
      exact .inl h
    · obtain hm | ⟨other, ho, he⟩ := ih h
      · exact .inl hm
      · exact .inr ⟨other, List.mem_cons_of_mem _ ho, he⟩

/-- What settling leaves of the children, if anything, begins with the first child. -/
theorem subject?_settle (node : Node) :
    (settle node).1.children = [] ∨ (settle node).1.subject? = node.subject? := by
  by_cases hnil : (settle node).1.children = []
  · exact .inl hnil
  · right
    have hhead : (settle node).1.children.head? = (settleAll node.children).head? := by
      have hparts : (settleAll node.children).rdropWhile isMarker ++
          (settleAll node.children).rtakeWhile isMarker = settleAll node.children :=
        List.rdropWhile_append_rtakeWhile
      rw [settle_children] at hnil ⊢
      obtain ⟨first, rest, hcons⟩ := List.exists_cons_of_ne_nil hnil
      rw [hcons] at hparts ⊢
      rw [← hparts]
      rfl
    rw [subject?, subject?, hhead]
    cases node.children with
    | nil => rfl
    | cons first rest => simp [settleAll_cons]

theorem endsInMarker_rdropWhile (nodes : List Node) :
    endsInMarker (nodes.rdropWhile isMarker) = false := by
  rw [endsInMarker]
  cases h : (nodes.rdropWhile isMarker).getLast? with
  | none => rfl
  | some last => exact not_of_getLast?_rdropWhile isMarker h

/-- Between settled children stand markers only. -/
theorem everywhere_settleAll {q : Node → Prop} (hmarker : q marker) {nodes : List Node}
    (h : ∀ node ∈ nodes, (settle node).1.Everywhere q) :
    ∀ child ∈ settleAll nodes, child.Everywhere q := by
  intro child hc
  obtain rfl | ⟨node, hn, rfl⟩ := mem_settleAll hc
  · exact .intro hmarker (by simp [marker])
  · exact h node hn

/-- What settling keeps at each node holds everywhere in a settled tree, as long as markers have
it. -/
theorem Everywhere.settle {p q : Node → Prop} (hmarker : q marker)
    (hsettle : ∀ node, p node → q (settle node).1) {node : Node} (h : Everywhere p node) :
    Everywhere q (Node.settle node).1 := by
  induction h with
  | @intro node holds inside ih =>
    refine .intro (hsettle node holds) ?_
    intro child hc
    rw [settle_children] at hc
    exact everywhere_settleAll hmarker ih child ((List.rdropWhile_prefix isMarker _).subset hc)

section Stages

/-- The summary of a list of nodes. -/
def summaryOf (nodes : List Node) : Node :=
  { tag := "summary", children := (nodes.filter isDescription).flatMap children }

theorem poolSummary_eq (nodes : List Node) :
    poolSummary nodes = summaryOf nodes :: nodes.filter (!isDescription ·) := rfl

/-- The summary takes a condition over from what is pooled in it. -/
theorem everywhere_summaryOf {p : Node → Prop} {nodes : List Node} (hsummary : p (summaryOf nodes))
    (hpooled : ∀ node ∈ nodes, node.isDescription = true →
      ∀ child ∈ node.children, child.Everywhere p) : (summaryOf nodes).Everywhere p := by
  refine .intro hsummary ?_
  intro child hc
  obtain ⟨node, hn, hchild⟩ := List.mem_flatMap.1 hc
  obtain ⟨hmem, hdesc⟩ := List.mem_filter.1 hn
  exact hpooled node hmem hdesc child hchild

theorem not_isDescription_of_isMarker {node : Node} (h : node.isMarker = true) :
    node.isDescription = false := by
  rw [isMarker, beq_iff_eq] at h
  rw [isDescription, h]
  decide

/-- Markers hold nothing of the description. -/
@[simp] theorem summaryOf_stripLeadingMarkers (nodes : List Node) :
    summaryOf (stripLeadingMarkers nodes) = summaryOf nodes := by
  induction nodes with
  | nil => rfl
  | cons node rest ih =>
    by_cases h : node.isMarker
    · have hstrip : stripLeadingMarkers (node :: rest) = stripLeadingMarkers rest := by
        simp [stripLeadingMarkers, h]
      have hsum : summaryOf (node :: rest) = summaryOf rest := by
        simp [summaryOf, not_isDescription_of_isMarker h]
      rw [hstrip, hsum, ih]
    · simp [stripLeadingMarkers, h]

variable (table : HandlerTable) (scope : Scope)

/-- The nodes of the filtered stage. -/
def filtered (nodes : List Node) : List Node :=
  keepWritable table scope (poolSummary (stripLeadingMarkers nodes))

theorem children_shifted (nodes : List Node) :
    (atStage table scope nodes .shifted).children =
      ((settleAll (filtered table scope nodes)).dropWhile isMarker).rdropWhile isMarker := rfl

theorem renderBody_shifted (other : Scope) (nodes : List Node) :
    (atStage table scope nodes .shifted).renderBody table other =
      renderAll table other (atStage table scope nodes .shifted).children := rfl

/-- Every top-level node of the filtered stage is the summary or comes from the record. -/
theorem mem_filtered {nodes : List Node} {node : Node} (h : node ∈ filtered table scope nodes) :
    node = summaryOf nodes ∨ node ∈ nodes ∧ node.isDescription = false := by
  have hp := (List.mem_filter.1 h).1
  rw [poolSummary_eq, summaryOf_stripLeadingMarkers, List.mem_cons] at hp
  rcases hp with hp | hp
  · exact .inl hp
  · obtain ⟨hm, hd⟩ := List.mem_filter.1 hp
    exact .inr ⟨(List.dropWhile_sublist isMarker).mem hm, by simpa using hd⟩

/-- Every top-level node of the prepared tree is a marker or a settled node of the filtered
stage. -/
theorem mem_children_shifted {nodes : List Node} {child : Node}
    (h : child ∈ (atStage table scope nodes .shifted).children) :
    child = marker ∨ ∃ node ∈ filtered table scope nodes, child = (settle node).1 := by
  rw [children_shifted] at h
  exact mem_settleAll
    ((List.dropWhile_sublist isMarker).mem ((List.rdropWhile_prefix isMarker _).subset h))

/-- A condition on all nodes of a record holds of the prepared tree if the summary gets it from the
pooled nodes and if settling a node keeps it. -/
theorem everywhere_shifted {p q : Node → Prop} {nodes : List Node} (hmarker : q marker)
    (hsettle : ∀ node, p node → q (settle node).1)
    (hsummary : p (summaryOf nodes))
    (hpooled : ∀ node ∈ nodes, node.isDescription = true →
      ∀ child ∈ node.children, child.Everywhere p)
    (hrest : ∀ node ∈ nodes, node.isDescription = false → node.Everywhere p) :
    ∀ child ∈ (atStage table scope nodes .shifted).children, child.Everywhere q := by
  have hsum := everywhere_summaryOf hsummary hpooled
  intro child hc
  obtain rfl | ⟨node, hn, rfl⟩ := mem_children_shifted table scope hc
  · exact .intro hmarker (by simp [marker])
  · obtain rfl | ⟨hmem, hdesc⟩ := mem_filtered table scope hn
    · exact hsum.settle hmarker hsettle
    · exact (hrest node hmem hdesc).settle hmarker hsettle

/-- The same for a condition that all nodes of the record meet, those of the description
included. -/
theorem everywhere_shifted_of_everywhere {p q : Node → Prop} {nodes : List Node}
    (hmarker : q marker) (hsettle : ∀ node, p node → q (settle node).1)
    (hsummary : p (summaryOf nodes)) (h : ∀ node ∈ nodes, node.Everywhere p) :
    ∀ child ∈ (atStage table scope nodes .shifted).children, child.Everywhere q := by
  apply everywhere_shifted table scope hmarker hsettle hsummary
  · intro node hn _
    exact (h node hn).inside
  · intro node hn _
    exact h node hn

/-- The prepared tree begins with the summary. -/
theorem shifted_begins_with_summary (nodes : List Node) (h : table.supports "summary" = true) :
    ∃ rest, (atStage table scope nodes .shifted).children =
      (settle (summaryOf nodes)).1 :: rest := by
  have hw : isWritable table scope (summaryOf nodes) = true := by
    rw [isWritable, show (summaryOf nodes).tag = "summary" from rfl, h]
    rfl
  have hfiltered : filtered table scope nodes = summaryOf nodes ::
      keepWritable table scope ((stripLeadingMarkers nodes).filter (!isDescription ·)) := by
    rw [filtered, poolSummary_eq, summaryOf_stripLeadingMarkers]
    exact List.filter_cons_of_pos hw
  have hm : (settle (summaryOf nodes)).1.isMarker = false := by
    rw [isMarker_settle]
    rfl
  rw [children_shifted, hfiltered, settleAll_cons, List.cons_append,
    List.dropWhile_cons_of_neg (by rw [hm]; simp), ← List.nil_append (_ :: _),
    rdropWhile_append_cons isMarker hm, List.nil_append]
  exact ⟨_, rfl⟩

end Stages

end DocComment.Node

namespace DocComment.Declaration

variable {table : HandlerTable} {options : Options} {declaration : Declaration}

/-- A comment that is not framed is the text of the prepared tree, on lines of its own. -/
theorem write_eq (hcomment : declaration.comment.isSome = true)
    (hverbatim : declaration.isVerbatim options = false) :
    declaration.write table options =
      Node.renderAll table (declaration.scope options)
        (Node.atStage table (declaration.scope options) declaration.tree .shifted).children ++
          ['\n'] := by
  obtain ⟨raw, hraw⟩ := Option.isSome_iff_exists.1 hcomment
  simp only [write, hraw, hverbatim]
  rfl

end DocComment.Declaration
