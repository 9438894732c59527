import DocComment.Proofs.Prose

/-!
# Preparing a tree loses no prose

Markers have no prose, so it does not matter where they stand and how many there are; what the
filter drops has none either. So the prepared tree has the prose of the record, with the description
in front, and the comment shows it.
-/

namespace DocComment

open HandlerTable (standard)

namespace Node

variable {scope : Scope} {node : Node}

theorem prose_of_isMarker (h : node.isMarker = true) : node.prose standard scope = [] := by
  rw [prose_eq, beq_iff_eq.1 h, HandlerTable.lookup_markerTag]
  rfl

theorem proseAll_of_isMarker {nodes : List Node} (h : ∀ node ∈ nodes, node.isMarker = true) :
    proseAll standard scope nodes = [] :=
  List.flatMap_eq_nil_iff.2 fun node hm => prose_of_isMarker (h node hm)

/-- Dropping markers from the end changes the prose of no tail. -/
theorem proseAll_drop_rdropWhile (scope : Scope) (n : Nat) (nodes : List Node) :
    proseAll standard scope ((nodes.rdropWhile isMarker).drop n) =
      proseAll standard scope (nodes.drop n) := by
  have hmarkers : ∀ node ∈ (nodes.rtakeWhile isMarker).drop
      (n - (nodes.rdropWhile isMarker).length),
      node.isMarker = true := fun _ hm => List.mem_rtakeWhile_imp (List.mem_of_mem_drop hm)
  have hsplit : nodes.drop n = (nodes.rdropWhile isMarker).drop n ++
      (nodes.rtakeWhile isMarker).drop (n - (nodes.rdropWhile isMarker).length) := by
    rw [← List.drop_append, List.rdropWhile_append_rtakeWhile]
  rw [hsplit, proseAll_append, proseAll_of_isMarker hmarkers, List.append_nil]

theorem proseAll_dropWhile (nodes : List Node) :
    proseAll standard scope (nodes.dropWhile isMarker) = proseAll standard scope nodes :=
  flatMap_dropWhile isMarker (fun _ h => prose_of_isMarker h) nodes

/-- Settling the nodes of a list changes the prose of no tail, if it changes that of no node. -/
theorem proseAll_settleAll {nodes : List Node}
    (h : ∀ node ∈ nodes, (settle node).1.prose standard scope = node.prose standard scope) :
    proseAll standard scope (settleAll nodes) = proseAll standard scope nodes ∧
      proseAll standard scope (settleAll nodes).tail = proseAll standard scope nodes.tail := by
  induction nodes with
  | nil => exact ⟨rfl, rfl⟩
  | cons first rest ih =>
    have hrest := (ih fun node hm => h node (List.mem_cons_of_mem _ hm)).1
    have hmarker : proseAll standard scope (if (settle first).2 then [marker] else []) = [] := by
      apply proseAll_of_isMarker
      split <;> simp
    have htail : proseAll standard scope (settleAll (first :: rest)).tail =
        proseAll standard scope rest := by
      rw [settleAll_cons, List.cons_append, List.tail_cons, proseAll_append, hmarker, hrest]
      rfl
    refine ⟨?_, htail⟩
    rw [proseAll_cons, ← htail, ← h first List.mem_cons_self, ← proseAll_cons]
    rw [settleAll_cons, List.cons_append, List.tail_cons]

/-- Settling a node keeps its prose. -/
theorem prose_settle (node : Node) :
    (settle node).1.prose standard scope = node.prose standard scope := by
  induction node using Node.induction with
  | _ node ih =>
    obtain ⟨hsettled, htail⟩ := proseAll_settleAll ih
    have hall : ((settle node).1.children.map (prose standard scope)).flatten =
        (node.children.map (prose standard scope)).flatten := by
      have hkept := proseAll_drop_rdropWhile scope 0 (settleAll node.children)
      simpa [proseAll, List.flatMap_def] using hkept.trans hsettled
    have hrest : ((settle node).1.children.map (prose standard scope)).tail.flatten =
        (node.children.map (prose standard scope)).tail.flatten := by
      have hkept := proseAll_drop_rdropWhile scope 1 (settleAll node.children)
      rw [List.drop_one, List.drop_one] at hkept
      simpa [proseAll, List.flatMap_def] using hkept.trans htail
    have hentry : ∀ entry : Entry,
        entry.prose scope (settle node).1 ((settle node).1.children.map (prose standard scope)) =
          entry.prose scope node (node.children.map (prose standard scope)) := by
      intro entry
      cases hh : entry.handler with
      | parameter =>
        simp only [Entry.prose, hh]
        obtain hnil | hsubject := subject?_settle node
        · have hempty : (node.children.map (prose standard scope)).tail.flatten = [] := by
            rw [← hrest, hnil]
            rfl
          rw [hrest, hempty, ite_self, ite_self]
        · rw [hsubject, hrest]
      | _ => simp only [Entry.prose, hh, hall, hrest, settle_data]
    rw [prose_eq, prose_eq, settle_tag]
    cases standard.lookup node.tag with
    | none => rfl
    | some entry => exact hentry entry

/-- Dropping the leading markers of a record loses no prose. -/
theorem proseAll_filter_stripLeadingMarkers (q : Node → Bool) (nodes : List Node) :
    proseAll standard scope ((stripLeadingMarkers nodes).filter q) =
      proseAll standard scope (nodes.filter q) :=
  flatMap_filter_dropWhile isMarker (fun _ h => prose_of_isMarker h) q nodes

/-- What cannot be written has no prose. -/
theorem prose_of_not_isWritable (h : isWritable standard scope node = false) :
    node.prose standard scope = [] := by
  rw [isWritable, Bool.and_eq_false_iff, Bool.or_eq_false_iff] at h
  rw [prose_eq]
  obtain hunknown | ⟨hparam, hsubject⟩ := h
  · rw [HandlerTable.supports, Option.isSome_eq_false_iff, Option.isNone_iff_eq_none] at hunknown
    rw [hunknown]
  · have hbase : baseCommand node.tag = "param" := by simpa using hparam
    cases hl : standard.lookup node.tag with
    | none => rfl
    | some entry =>
      have hh := HandlerTable.handler_of_baseCommand_param hl hbase
      simp [Entry.prose, hh, hsubject]

/-- So the filter loses none. -/
theorem proseAll_keepWritable (nodes : List Node) :
    proseAll standard scope (keepWritable standard scope nodes) =
      proseAll standard scope nodes := by
  induction nodes with
  | nil => rfl
  | cons node rest ih =>
    cases hw : isWritable standard scope node with
    | true =>
      have hkeep : keepWritable standard scope (node :: rest) =
          node :: keepWritable standard scope rest := List.filter_cons_of_pos hw
      rw [hkeep, proseAll_cons, proseAll_cons, ih]
    | false =>
      have hdrop : keepWritable standard scope (node :: rest) = keepWritable standard scope rest :=
        List.filter_cons_of_neg (by simp [hw])
      rw [hdrop, proseAll_cons, prose_of_not_isWritable hw, ih]
      rfl

theorem prose_summaryOf (nodes : List Node) :
    (summaryOf nodes).prose standard scope =
      proseAll standard scope ((nodes.filter isDescription).flatMap children) := by
  rw [prose_eq, show (summaryOf nodes).tag = "summary" from rfl, HandlerTable.lookup_summary,
    proseAll, List.flatMap_def]
  rfl

/-- The prose of a record: of the description first, then of the other nodes in their order. -/
def proseOf (scope : Scope) (nodes : List Node) : Text :=
  proseAll standard scope ((nodes.filter isDescription).flatMap children) ++
    proseAll standard scope (nodes.filter (!isDescription ·))

/-- The prepared tree has the prose of the record. -/
theorem proseAll_shifted (nodes : List Node) :
    proseAll standard scope (atStage standard scope nodes .shifted).children =
      proseOf scope nodes := by
  have htrim := proseAll_drop_rdropWhile scope 0
    ((settleAll (filtered standard scope nodes)).dropWhile isMarker)
  rw [List.drop_zero, List.drop_zero] at htrim
  rw [children_shifted, htrim, proseAll_dropWhile,
    (proseAll_settleAll fun node _ => prose_settle node).1, filtered, proseAll_keepWritable,
    poolSummary_eq, proseAll_cons, summaryOf_stripLeadingMarkers, prose_summaryOf,
    proseAll_filter_stripLeadingMarkers, proseOf]

theorem isProse_settle (h : node.IsProse) : (settle node).1.IsProse := by
  refine ⟨by simpa using h.1, ?_, by simpa using h.2.2⟩
  intro hleaf
  rw [settle_isLeaf] at hleaf
  rw [settle_children, h.2.1 hleaf]
  rfl

theorem isProse_summaryOf (nodes : List Node) : (summaryOf nodes).IsProse := by
  refine ⟨?_, by simp [summaryOf], by simp [summaryOf]⟩
  rw [show (summaryOf nodes).tag = "summary" from rfl, HandlerTable.lookup_summary]
  rfl

theorem isProse_marker : marker.IsProse := by
  refine ⟨?_, by simp [marker], by simp [marker]⟩
  rw [show marker.tag = markerTag from rfl, HandlerTable.lookup_markerTag]
  rfl

end Node

namespace Declaration

/-- The comment has the words of the record's prose, in their order. -/
theorem words_write (options : Options) (declaration : Declaration)
    (hcomment : declaration.comment.isSome = true)
    (hverbatim : declaration.isVerbatim options = false)
    (hpooled : ∀ node ∈ declaration.tree, node.isDescription = true →
      ∀ child ∈ node.children, child.Everywhere Node.IsProse)
    (hrest : ∀ node ∈ declaration.tree, node.isDescription = false → node.Everywhere Node.IsProse) :
    words (declaration.write standard options) =
      words (Node.proseOf (declaration.scope options) declaration.tree) := by
  have hprose := Node.everywhere_shifted standard (declaration.scope options) Node.isProse_marker
    (fun _ h => Node.isProse_settle h) (Node.isProse_summaryOf declaration.tree) hpooled hrest
  have hshown : Shows
      (Node.renderAll standard (declaration.scope options)
        (Node.atStage standard (declaration.scope options) declaration.tree .shifted).children)
      (Node.proseOf (declaration.scope options) declaration.tree) := by
    rw [← Node.proseAll_shifted]
    exact Node.shows_flatten fun child hc => Node.render_shows (hprose child hc)
  have hline : Shows ['\n'] [] := .of_filler (List.all_eq_true.1 (by decide))
  have hwritten := hshown.append hline
  rw [← write_eq hcomment hverbatim, List.append_nil] at hwritten
  rw [hwritten.words_eq, words, withoutTags_of_plain hwritten.plain]

/-- A description in two parts around a parameter, a parameter that the declaration lacks, and
markers at the ends of elements. -/
def twoParts : Declaration where
  name := "f"
  parameters := ["x"]
  comment := some "raw"
  tree := [
    .marker,
    { tag := "brief", children := [
      { tag := "b", children := [.text "Adds ", .marker] },
      .text "one"] },
    { tag := "param[in]", children := [.text "x", .text "the summand", .marker] },
    { tag := "param", children := [.text "y", .text "unknown"] },
    { tag := "partofdescription", children := [.marker, .text " and/or two"] },
    { tag := "par", children := [.text "Note", .text "exact"] }]

theorem words_write_twoParts :
    (∀ node ∈ twoParts.tree, node.isDescription = true →
        ∀ child ∈ node.children, child.Everywhere Node.IsProse) ∧
      (∀ node ∈ twoParts.tree, node.isDescription = false → node.Everywhere Node.IsProse) ∧
      words (twoParts.write standard {}) = words (Node.proseOf (twoParts.scope {}) twoParts.tree) :=
  have h : (∀ node ∈ twoParts.tree, node.isDescription = true →
        ∀ child ∈ node.children, child.Everywhere Node.IsProse) ∧
      ∀ node ∈ twoParts.tree, node.isDescription = false → node.Everywhere Node.IsProse := by
    decide +kernel
  ⟨h.1, h.2, words_write {} twoParts rfl rfl h.1 h.2⟩

end Declaration

end DocComment
