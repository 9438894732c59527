import DocComment.Proofs.Preparation
import DocComment.Proofs.StandardTable

/-!
# The parameters a comment mentions

Scopes are asked by the filter of the top level and again when parameters are written, wherever they
stand. Both ask about the first child of a `param`, and what is done to the tree in between puts no
other child first. So scopes that agree on the names a record mentions cannot be told apart.
-/

namespace DocComment

open HandlerTable (standard)

theorem HandlerTable.standardEntries_parameter :
    ∀ item ∈ standardEntries, item.2.handler = .parameter → item.1 = "param" := by
  decide +kernel

namespace Node

/-- The name that a node mentions: as a `param`, what its first child holds. -/
def mention? (node : Node) : Option String :=
  if baseCommand node.tag = "param" then node.subject? else none

mutual

/-- The names mentioned at a node and below it. -/
def mentions : Node → List String
  | ⟨tag, data, children, isLeaf⟩ =>
    (mention? ⟨tag, data, children, isLeaf⟩).toList ++ mentionsEach children

def mentionsEach : List Node → List String
  | [] => []
  | node :: rest => mentions node ++ mentionsEach rest

end

theorem mentions_eq (node : Node) :
    node.mentions = node.mention?.toList ++ mentionsEach node.children := by
  obtain ⟨tag, data, children, isLeaf⟩ := node
  rw [mentions]

theorem mem_mentionsEach {nodes : List Node} {node : Node} {name : String} (hnode : node ∈ nodes)
    (hname : name ∈ node.mentions) : name ∈ mentionsEach nodes := by
  induction nodes with
  | nil => cases hnode
  | cons first rest ih =>
    rw [mentionsEach, List.mem_append]
    rcases List.mem_cons.1 hnode with rfl | hrest
    · exact .inl hname
    · exact .inr (ih hrest)

/-- Two scopes answer alike what a node asks them. -/
def AgreeAt (scope other : Scope) (node : Node) : Prop :=
  ∀ name ∈ node.mention?, scope name = other name

variable {scope other : Scope} {node : Node} {nodes : List Node}

theorem agreeAt_of_not_param (h : baseCommand node.tag ≠ "param") : AgreeAt scope other node := by
  rw [AgreeAt, mention?, if_neg h]
  simp

theorem agreeAt_summaryOf (nodes : List Node) : AgreeAt scope other (summaryOf nodes) :=
  agreeAt_of_not_param (show baseCommand "summary" ≠ "param" by decide +kernel)

theorem agreeAt_marker : AgreeAt scope other marker :=
  agreeAt_of_not_param (show baseCommand markerTag ≠ "param" by decide +kernel)

/-- Scopes that agree on the mentions of a tree agree at each of its nodes. -/
theorem everywhere_agreeAt (node : Node) (h : ∀ name ∈ node.mentions, scope name = other name) :
    node.Everywhere (AgreeAt scope other) := by
  induction node using Node.induction with
  | _ node ih =>
    rw [mentions_eq] at h
    refine .intro ?_ ?_
    · intro name hname
      exact h name (List.mem_append_left _ (by simpa using hname))
    · intro child hc
      exact ih child hc fun name hname =>
        h name (List.mem_append_right _ (mem_mentionsEach hc hname))

/-- Settling a node leaves its mention or nothing at all. -/
theorem agreeAt_settle (node : Node) (h : AgreeAt scope other node) :
    AgreeAt scope other (settle node).1 := by
  rw [AgreeAt, mention?] at h ⊢
  rw [settle_tag]
  obtain hnil | hsubject := subject?_settle node
  · rw [subject?, hnil]
    simp
  · rwa [hsubject]

section Filter

theorem isWritable_congr (table : HandlerTable) (h : AgreeAt scope other node) :
    isWritable table scope node = isWritable table other node := by
  rw [isWritable, isWritable]
  by_cases hparam : baseCommand node.tag = "param"
  · rw [AgreeAt, mention?, if_pos hparam] at h
    have hany : node.subject?.any scope = node.subject?.any other := by
      cases hs : node.subject? with
      | none => rfl
      | some name => exact h name hs
    rw [hany]
  · rw [bne_iff_ne.2 hparam, Bool.true_or, Bool.true_or]

/-- The filter asks only about mentions of the top level, the summary having none. -/
theorem filtered_congr (table : HandlerTable) (h : ∀ node ∈ nodes, AgreeAt scope other node) :
    filtered table scope nodes = filtered table other nodes := by
  refine List.filter_congr fun node hn => isWritable_congr table ?_
  rw [poolSummary_eq, List.mem_cons] at hn
  rcases hn with rfl | hn
  · exact agreeAt_summaryOf _
  · exact h node ((List.dropWhile_sublist isMarker).mem (List.mem_filter.1 hn).1)

theorem atStage_congr (table : HandlerTable) (h : ∀ node ∈ nodes, AgreeAt scope other node)
    (stage : Stage) : atStage table scope nodes stage = atStage table other nodes stage := by
  have hfiltered := filtered_congr table h
  cases stage with
  | parsed | summary => rfl
  | filtered => exact congrArg root hfiltered
  | shifted => exact congrArg (fun nodes => trimMarkers (shiftMarkers (root nodes))) hfiltered

end Filter

section Writing

/-- Writing a node asks the scope about its subject, if about anything, and only of a parameter. -/
theorem write_congr_scope {entry : Entry} (pieces : List Text)
    (h : entry.handler = .parameter → ∀ name ∈ node.subject?, scope name = other name) :
    entry.write scope node pieces = entry.write other node pieces := by
  cases hh : entry.handler with
  | parameter =>
    cases hc : node.children with
    | nil => simp only [Entry.write, hh, hc]
    | cons first rest =>
      have hfirst : scope first.data = other first.data :=
        h hh first.data (by rw [subject?, hc]; rfl)
      simp only [Entry.write, hh, hc, hfirst]
  | _ => simp only [Entry.write, hh]

theorem render_congr_scope (h : node.Everywhere (AgreeAt scope other)) :
    node.render standard scope = node.render standard other := by
  induction h with
  | @intro node holds inside ih =>
    rw [render_eq, render_eq, List.map_congr_left ih]
    cases hl : standard.lookup node.tag with
    | none => rfl
    | some entry =>
      refine write_congr_scope _ fun hh => ?_
      have hparam : baseCommand node.tag = "param" :=
        HandlerTable.standardEntries_parameter _ (HandlerTable.base_mem_standardEntries hl) hh
      rwa [AgreeAt, mention?, if_pos hparam] at holds

/-- The prepared tree is written alike under scopes that agree on all the record mentions. -/
theorem renderBody_shifted_congr (h : ∀ name ∈ mentionsEach nodes, scope name = other name) :
    (atStage standard scope nodes .shifted).renderBody standard scope =
      (atStage standard other nodes .shifted).renderBody standard other := by
  have hnodes : ∀ node ∈ nodes, node.Everywhere (AgreeAt scope other) := fun node hn =>
    everywhere_agreeAt node fun name hname => h name (mem_mentionsEach hn hname)
  have hprepared : ∀ child ∈ (atStage standard scope nodes .shifted).children,
      child.Everywhere (AgreeAt scope other) :=
    everywhere_shifted_of_everywhere standard scope agreeAt_marker agreeAt_settle
      (agreeAt_summaryOf nodes) hnodes
  rw [← atStage_congr standard fun node hn => (hnodes node hn).holds, renderBody_shifted,
    renderBody_shifted, renderAll, renderAll, List.flatMap_def, List.flatMap_def]
  exact congrArg List.flatten
    (List.map_congr_left fun child hc => render_congr_scope (hprepared child hc))

end Writing

end Node

namespace Declaration

/-- Declarations with the same comment and tree are written alike if their scopes agree on what the
tree mentions. -/
theorem write_eq_of_agree {options others : Options} {declaration other : Declaration}
    (hcomment : declaration.comment = other.comment)
    (hverbatim : declaration.isVerbatim options = other.isVerbatim others)
    (htree : declaration.tree = other.tree)
    (h : ∀ name ∈ Node.mentionsEach declaration.tree,
      declaration.scope options name = other.scope others name) :
    declaration.write standard options = other.write standard others := by
  have htext := Node.renderBody_shifted_congr h
  rw [write, write, ← hcomment, ← hverbatim, ← htree]
  cases declaration.comment with
  | none => rfl
  | some raw => simp only [htext]

/-- A scope matters only for the names that the tree mentions. So parameters can be reordered,
repeated and joined by names that are not mentioned, and it is the same whether unknown parameters
are kept by the options, by the feature of the declaration or by making every mentioned name a
parameter. -/
theorem only_mentions_matter :
    (∀ (nodes : List Node) (scope other : Scope),
        (∀ name ∈ Node.mentionsEach nodes, scope name = other name) →
        (∀ stage, Node.atStage standard scope nodes stage =
          Node.atStage standard other nodes stage) ∧
          (Node.atStage standard scope nodes .shifted).renderBody standard scope =
            (Node.atStage standard other nodes .shifted).renderBody standard other) ∧
      ∀ (options : Options) (declaration : Declaration),
        (∀ names : List String,
          (∀ name ∈ Node.mentionsEach declaration.tree, name ∈ names ↔
            name ∈ declaration.parameters) →
          { declaration with parameters := names }.write standard options =
            declaration.write standard options) ∧
        { declaration with features := { declaration.features with nostripparams := true } }.write
            standard options =
          declaration.write standard { options with keepUnknownParams := true } ∧
        ∀ names : List String, (∀ name ∈ Node.mentionsEach declaration.tree, name ∈ names) →
          { declaration with parameters := declaration.parameters ++ names }.write
            standard options =
            declaration.write standard { options with keepUnknownParams := true } := by
  refine ⟨fun nodes scope other h => ⟨?_, Node.renderBody_shifted_congr h⟩,
    fun options declaration => ?_⟩
  · refine Node.atStage_congr standard fun node hn => (Node.everywhere_agreeAt node ?_).holds
    exact fun name hname => h name (Node.mem_mentionsEach hn hname)
  refine ⟨fun names h => ?_, ?_, fun names h => ?_⟩
  · refine write_eq_of_agree rfl rfl rfl fun name hname => ?_
    simp only [scope]
    split
    · rfl
    · rw [Bool.eq_iff_iff, Scope.ofNames_iff, Scope.ofNames_iff]
      exact h name hname
  · refine write_eq_of_agree rfl rfl rfl fun name _ => ?_
    simp only [scope, Bool.or_true, Bool.true_or]
  · refine write_eq_of_agree rfl rfl rfl fun name hname => ?_
    simp only [scope, Bool.true_or, if_true]
    split
    · rfl
    · exact Scope.ofNames_iff.2 (List.mem_append_right _ (h name hname))

/-- Parameters mentioned at the top, inside an element and inside another parameter. -/
def nestedParameters : Declaration where
  name := "f"
  parameters := ["x", "y"]
  comment := some "raw"
  tree := [
    { tag := "brief", children := [
      .text "Brief.",
      { tag := "param", children := [.text "y", .text "why"] }] },
    { tag := "param[in]", children := [
      .text "x",
      { tag := "parameter", children := [.text "z"] }] },
    { tag := "returns", children := [{ tag := "param", children := [.marker] }] }]

theorem only_mentions_matter_nestedParameters :
    Node.mentionsEach nestedParameters.tree = ["y", "x", "z", ""] ∧
      (∀ stage, Node.atStage standard (Scope.ofNames ["x", "y"]) nestedParameters.tree stage =
        Node.atStage standard (Scope.ofNames ["y", "w", "x", "y"]) nestedParameters.tree stage) ∧
      { nestedParameters with parameters := ["y", "w", "x", "y"] }.write standard {} =
        nestedParameters.write standard {} ∧
      { nestedParameters with parameters := ["x", "y", "", "z", "y", "x"] }.write standard {} =
        nestedParameters.write standard { keepUnknownParams := true } := by
  have hmentions : Node.mentionsEach nestedParameters.tree = ["y", "x", "z", ""] := by
    decide +kernel
  have hscopes : ∀ name ∈ Node.mentionsEach nestedParameters.tree,
      Scope.ofNames ["x", "y"] name = Scope.ofNames ["y", "w", "x", "y"] name := by
    rw [hmentions]
    decide
  have hnames : ∀ name ∈ Node.mentionsEach nestedParameters.tree,
      name ∈ ["y", "w", "x", "y"] ↔ name ∈ nestedParameters.parameters := by
    rw [hmentions]
    decide
  have hall : ∀ name ∈ Node.mentionsEach nestedParameters.tree, name ∈ ["", "z", "y", "x"] := by
    rw [hmentions]
    decide
  exact ⟨hmentions, (only_mentions_matter.1 nestedParameters.tree _ _ hscopes).1,
    (only_mentions_matter.2 {} nestedParameters).1 _ hnames,
    (only_mentions_matter.2 {} nestedParameters).2.2 _ hall⟩

end Declaration

end DocComment
