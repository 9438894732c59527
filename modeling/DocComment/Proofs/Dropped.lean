import DocComment.Proofs.Erasure
import DocComment.Proofs.Hidden

/-!
# What the filter drops

The filter asks for the base command and the first child, the writer for an entry and leaves the
rest to its handler. They agree on what counts as long as `param` is left to the handler of
parameters or to none: then a node that the filter drops is written as nothing, and only then.
-/

namespace DocComment

open HandlerTable (standard)

/-- No other handler than that of parameters writes the nodes of `param`. -/
def HandlerTable.LeavesParameters (table : HandlerTable) : Prop :=
  ∀ entry, table.get? "param" = some entry → entry.handler = .parameter

namespace Node

/-- A parameter with something to show for each other handler. -/
def strayParameter : Node := { tag := "param", data := "x", children := [.text "x label"] }

section Writing

variable {table : HandlerTable} {scope : Scope} {node : Node}

/-- What the filter drops is written as nothing. -/
theorem render_of_not_isWritable (htable : table.LeavesParameters)
    (h : isWritable table scope node = false) : node.render table scope = [] := by
  rw [isWritable, Bool.and_eq_false_iff, Bool.or_eq_false_iff] at h
  rcases h with hsupports | ⟨hbase, hsubject⟩
  · exact render_of_not_supports hsupports
  · have hparam : baseCommand node.tag = "param" := by simpa using hbase
    rw [render_eq]
    cases hl : table.lookup node.tag with
    | none => rfl
    | some entry =>
      rw [HandlerTable.lookup, hparam] at hl
      have hparameter : entry.handler = .parameter := htable entry hl
      cases hchildren : node.children with
      | nil => simp [Entry.write, hparameter, hchildren]
      | cons first rest =>
        have hunknown : scope first.data = false := by simpa [subject?, hchildren] using hsubject
        exact write_unknownParameter hparameter hchildren hunknown _

theorem element_ne_nil (name attributes body : Text) : element name attributes body ≠ [] := by
  simp [element]

theorem wrapInline_ne_nil (name body : Text) : wrapInline name body ≠ [] := by
  rw [wrapInline]
  split
  · simp
  · simp [element]

theorem write_strayParameter {entry : Entry} (h : entry.handler ≠ .parameter) (pieces : List Text) :
    entry.write scope strayParameter pieces ≠ [] := by
  obtain ⟨handler, argument⟩ := entry
  cases handler with
  | parameter => exact absurd rfl h
  | wrap => exact wrapInline_ne_nil _ _
  | literal =>
    simp only [Entry.write, elementName]
    split
    · decide
    · next hargument => simpa using hargument
  | element | block | titledParagraph | anchorLink | anchor => exact element_ne_nil _ _ _
  | crossReference | formula | plainText | characterReference =>
    simp [Entry.write, strayParameter, emptyElement]
  | rawTag =>
    simp only [Entry.write]
    split <;> simp
  | lineBreak | summary | linkText => exact List.cons_ne_nil _ _

end Writing

variable (table : HandlerTable) (scope : Scope)

theorem isWritable_strayParameter : isWritable table (fun _ => false) strayParameter = false := by
  simp [isWritable, strayParameter, subject?]

/-- A filter that drops only nodes without a text leaves the text of the list. -/
theorem renderAll_keepWritable {nodes : List Node}
    (h : ∀ node, isWritable table scope node = false → node.render table scope = []) :
    renderAll table scope (keepWritable table scope nodes) = renderAll table scope nodes := by
  induction nodes with
  | nil => rfl
  | cons node rest ih =>
    rw [keepWritable] at ih ⊢
    cases hw : isWritable table scope node with
    | true => rw [List.filter_cons_of_pos hw, renderAll_cons, renderAll_cons, ih]
    | false =>
      rw [List.filter_cons_of_neg (by simp [hw]), ih, renderAll_cons, h node hw, List.nil_append]

theorem isWritable_mono {narrow wide : Scope}
    (hscope : ∀ name, narrow name = true → wide name = true) {node : Node}
    (h : isWritable table narrow node = true) : isWritable table wide node = true := by
  rw [isWritable_iff] at h ⊢
  refine ⟨h.1, fun hparam => ?_⟩
  obtain ⟨first, hfirst, hknown⟩ := h.2 hparam
  exact ⟨first, hfirst, hscope _ hknown⟩

/-- The tables under which the filter and the writer agree are those that leave `param` to the
handler of parameters or to none. Under every table a narrower scope drops all that a wider one
drops. -/
theorem keepWritable_drops_nothing_written :
    (table.LeavesParameters ↔ ∀ (scope : Scope) (nodes : List Node),
      renderAll table scope (keepWritable table scope nodes) = renderAll table scope nodes ∧
        ∀ node ∈ nodes, node ∉ keepWritable table scope nodes → node.render table scope = []) ∧
      ∀ (narrow wide : Scope) (nodes : List Node), (∀ name, narrow name = true → wide name = true) →
        keepWritable table narrow nodes =
          keepWritable table narrow (keepWritable table wide nodes) := by
  refine ⟨⟨fun htable scope nodes => ⟨?_, ?_⟩, fun h entry hentry => ?_⟩, ?_⟩
  · exact renderAll_keepWritable table scope fun node hw => render_of_not_isWritable htable hw
  · intro node hnode hdropped
    rw [keepWritable, List.mem_filter, not_and, Bool.not_eq_true] at hdropped
    exact render_of_not_isWritable htable (hdropped hnode)
  · by_contra hother
    have hdropped : strayParameter ∉ keepWritable table (fun _ => false) [strayParameter] := by
      rw [keepWritable, List.mem_filter, isWritable_strayParameter]
      simp
    have hempty := (h (fun _ => false) [strayParameter]).2 strayParameter (by simp) hdropped
    have hlookup : table.lookup strayParameter.tag = some entry := hentry
    rw [render_eq, hlookup] at hempty
    exact write_strayParameter hother _ hempty
  · intro narrow wide nodes hscope
    rw [keepWritable, keepWritable, keepWritable, List.filter_filter]
    refine List.filter_congr fun node _ => ?_
    cases hw : isWritable table narrow node with
    | false => rfl
    | true => rw [isWritable_mono table hscope hw]; rfl

/-- Spellings of `param` and `code`, known and unknown parameters, and a command without an
entry. -/
def mixedSections : List Node := [
  { tag := "parameter", children := [.text "x", .text "known"] },
  { tag := "param[in]", children := [.text "y", .text "unknown"] },
  { tag := "param" },
  { tag := "details", children := [.text "unregistered"] },
  { tag := "code{.py}", children := [.text "y = x"] }]

theorem keepWritable_drops_nothing_written_mixedSections :
    standard.LeavesParameters ∧
      renderAll standard (Scope.ofNames ["x"])
        (keepWritable standard (Scope.ofNames ["x"]) mixedSections) =
        renderAll standard (Scope.ofNames ["x"]) mixedSections ∧
      (∀ name, Scope.ofNames ["x"] name = true → Scope.ofNames ["y", "x"] name = true) ∧
      keepWritable standard (Scope.ofNames ["x"]) mixedSections =
        keepWritable standard (Scope.ofNames ["x"])
          (keepWritable standard (Scope.ofNames ["y", "x"]) mixedSections) := by
  have htable : standard.LeavesParameters := by
    intro entry hentry
    have hlookup : standard.lookup "param" = some entry := hentry
    exact HandlerTable.handler_of_baseCommand_param hlookup baseCommand_param
  have hscope : ∀ name, Scope.ofNames ["x"] name = true → Scope.ofNames ["y", "x"] name = true := by
    simp
  have h := keepWritable_drops_nothing_written standard
  exact ⟨htable, (h.1.1 htable _ _).1, hscope, h.2 _ _ _ hscope⟩

end Node

end DocComment
