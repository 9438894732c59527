import DocComment.Proofs.CommentLines

/-!
# Line breaks at the end of what a node holds

Settling moves markers away from the end of each node by their place among the children. In the text
a line break also comes to the end where only nodes written as nothing stand behind a marker, and a
link shows its children without an element around them. These are the only ways.
-/

namespace DocComment

open HandlerTable (standard)

theorem not_suffix_of_lineFeed_not_mem {text : Text} (h : '\n' ∉ text) : ¬ lineBreak <:+ text :=
  fun hs => h (hs.mem (by decide))

/-- Nothing but blanks stands behind the last tag. -/
def EndsInTag (text : Text) : Prop :=
  ∃ front blanks, text = front ++ '>' :: blanks ∧ ∀ c ∈ blanks, isTrailing c = true

theorem endsInTag_concat (front : Text) : EndsInTag (front ++ ['>']) :=
  ⟨front, [], rfl, by simp⟩

theorem endsInTag_element (name attributes body : Text) :
    EndsInTag (element name attributes body) :=
  endsInTag_concat _

theorem endsInTag_emptyElement (name attributes : Text) :
    EndsInTag (emptyElement name attributes) := by
  have he : emptyElement name attributes = '<' :: name ++ attributes ++ ['/'] ++ ['>'] := by
    simp [emptyElement]
  rw [he]
  exact endsInTag_concat _

theorem EndsInTag.append {text blanks : Text} (h : EndsInTag text)
    (hblanks : ∀ c ∈ blanks, isTrailing c = true) : EndsInTag (text ++ blanks) := by
  obtain ⟨front, others, rfl, hothers⟩ := h
  refine ⟨front, others ++ blanks, by simp, ?_⟩
  intro c hc
  rcases List.mem_append.1 hc with hc | hc
  · exact hothers c hc
  · exact hblanks c hc

theorem endsInTag_wrapInline (name body : Text) : EndsInTag (wrapInline name body) := by
  rw [wrapInline_eq]
  split
  · exact (endsInTag_element _ _ _).append (List.all_eq_true.1 (by decide))
  · exact (endsInTag_element _ _ _).append fun _ => List.mem_rtakeWhile_imp

theorem getLast?_of_endsInTag {text : Text} (h : EndsInTag text) :
    (text.rdropWhile isTrailing).getLast? = some '>' := by
  obtain ⟨front, blanks, rfl, hblanks⟩ := h
  rw [rdropWhile_append_cons isTrailing (by decide), List.rdropWhile_eq_nil_iff.2 hblanks,
    List.getLast?_concat]

/-- A line break has a slash before its last blank, and a tag does not. -/
theorem EndsInTag.not_suffix {text : Text} (h : EndsInTag text) : ¬ lineBreak <:+ text := by
  rintro ⟨before, rfl⟩
  have hbreak : lineBreak = " \n //".toList ++ '/' :: [' '] := by decide
  have hlast := getLast?_of_endsInTag h
  rw [hbreak, ← List.append_assoc, rdropWhile_append_cons _ (by decide)] at hlast
  simp [List.rdropWhile, isTrailing] at hlast

/-- Where two texts are joined no line break arises: it is the end of the second, or of the first if
the second is empty. -/
theorem lineBreak_suffix_append {a b : Text} (ha : InComment a) (hb : InComment b) :
    lineBreak <:+ a ++ b ↔ lineBreak <:+ b ∨ b = [] ∧ lineBreak <:+ a := by
  have hbreak : lineBreak = ' ' :: '\n' :: (lineStart ++ [' ']) := by decide
  constructor
  · rintro ⟨before, he⟩
    rcases List.append_eq_append_iff.1 he with ⟨left, hleft, hjoin⟩ | ⟨right, hright, hjoin⟩
    · -- the break begins in the first text, with `left`
      rw [hbreak] at hjoin
      rcases left with _ | ⟨c, _ | ⟨d, left⟩⟩
      · exact .inl ⟨[], by rw [hbreak, hjoin]; rfl⟩
      · have hhead := hb.start
        simp only [List.cons_append, List.nil_append, List.cons.injEq] at hjoin
        rw [← hjoin.2] at hhead
        exact absurd rfl hhead
      · simp only [List.cons_append, List.cons.injEq] at hjoin
        obtain ⟨rfl, rfl, hrest⟩ := hjoin
        obtain ⟨next, more, hmore⟩ := (hleft ▸ ha.continued).right.tail.after_lineFeed
        have hlen := congrArg List.length hrest
        simp only [hmore, List.length_append, List.length_cons, List.length_nil] at hlen
        have hnil : b = [] := List.length_eq_zero_iff.1 (by omega)
        rw [hnil, List.append_nil] at he
        exact .inr ⟨hnil, before, he⟩
    · exact .inl ⟨right, hjoin.symm⟩
  · rintro (h | ⟨rfl, h⟩)
    · exact h.trans (List.suffix_append a b)
    · rwa [List.append_nil]

namespace Node

variable {scope : Scope} {node : Node} {entry : Entry}

/-- Of all handlers only those of line breaks and links end a text in a line break. -/
theorem write_not_suffix (hl : standard.lookup node.tag = some entry)
    (hbreak : entry.handler ≠ .lineBreak) (hlink : entry.handler ≠ .linkText)
    (h : node.Everywhere fun node => '\n' ∉ node.data.toList) (pieces : List Text) :
    ¬ lineBreak <:+ entry.write scope node pieces := by
  have hnil : ¬ lineBreak <:+ [] := not_suffix_of_lineFeed_not_mem (by simp)
  have helement : ∀ name attributes body, ¬ lineBreak <:+ element name attributes body :=
    fun name attributes body => (endsInTag_element name attributes body).not_suffix
  cases hh : entry.handler with
  | wrap =>
    simp only [Entry.write, hh]
    split
    · exact hnil
    · exact (endsInTag_wrapInline _ _).not_suffix
  | literal =>
    simp only [Entry.write, hh]
    apply not_suffix_of_lineFeed_not_mem
    rcases HandlerTable.literal_spelling hl hh with hplain | ⟨name, hname, he⟩
    · exact fun hm => (hplain _ hm).2 rfl
    · simp [he, lineFeed_not_mem_of_isName hname]
  | element =>
    simp only [Entry.write, hh, reflow_eq]
    exact helement _ _ _
  | crossReference =>
    simp only [Entry.write, hh, reflow_eq]
    split
    · exact (endsInTag_emptyElement _ _).not_suffix
    · exact hnil
  | rawTag =>
    simp only [Entry.write, hh]
    split
    · exact (endsInTag_concat _).not_suffix
    · exact (endsInTag_concat _).not_suffix
  | characterReference =>
    simp only [Entry.write, hh]
    apply not_suffix_of_lineFeed_not_mem
    simpa using HandlerTable.lineFeed_not_mem_argument hl
  | lineBreak => exact absurd hh hbreak
  | plainText =>
    simp only [Entry.write, hh]
    exact not_suffix_of_lineFeed_not_mem h.holds
  | summary =>
    simp only [Entry.write, hh, reflow_eq]
    have he : summaryEnd = "\n /// </summary".toList ++ ['>'] := by decide
    rw [he, ← List.append_assoc]
    exact (endsInTag_concat _).not_suffix
  | formula =>
    simp only [Entry.write, hh, HandlerTable.formula_argument hl hh]
    apply not_suffix_of_lineFeed_not_mem
    intro hm
    rcases List.mem_cons.1 hm with hc | hm
    · exact absurd hc (by decide)
    · obtain ⟨child, hc, hm⟩ := List.mem_flatMap.1 hm
      exact (h.inside child hc).holds hm
  | block =>
    simp only [Entry.write, hh, reflow_eq]
    exact helement _ _ _
  | titledParagraph =>
    simp only [Entry.write, hh, reflow_eq]
    split
    · exact hnil
    · exact helement _ _ _
  | parameter =>
    simp only [Entry.write, hh, reflow_eq]
    split
    · exact hnil
    · split
      · exact helement _ _ _
      · exact hnil
  | anchorLink =>
    simp only [Entry.write, hh]
    split
    · exact hnil
    · exact helement _ _ _
    · exact helement _ _ _
  | linkText => exact absurd hh hlink
  | anchor =>
    simp only [Entry.write, hh]
    exact helement _ _ _

/-- What a link shows is a label on one line and its children behind the first. -/
theorem lineBreak_suffix_render_link (h : node.Everywhere fun node => '\n' ∉ node.data.toList)
    (hlink : node.tag = "link") :
    lineBreak <:+ node.render standard scope ↔
      lineBreak <:+ renderAll standard scope node.children.tail := by
  have hnil : ¬ lineBreak <:+ [] := not_suffix_of_lineFeed_not_mem (by simp)
  rw [render_eq, hlink, HandlerTable.lookup_link]
  simp only [Entry.write, reflow_eq]
  cases hc : node.children with
  | nil => simp [hnil]
  | cons target rest =>
    have htarget := (h.inside target (by simp [hc])).holds
    have hlabel : '\n' ∉ linkLabel target.data.toList := fun hm =>
      htarget ((List.dropWhile_sublist _).mem (List.mem_of_mem_drop hm))
    have hrest : InComment (renderAll standard scope rest) :=
      inComment_closed.renderAll fun child hm =>
        render_inComment (h.inside child (by simp [hc, hm]))
    change lineBreak <:+ linkLabel target.data.toList ++ renderAll standard scope rest ↔
      lineBreak <:+ renderAll standard scope rest
    rw [lineBreak_suffix_append (.of_not_mem hlabel) hrest]
    exact or_iff_left fun hs => not_suffix_of_lineFeed_not_mem hlabel hs.2

/-- A node ends in a line break if it is a marker, or a link whose shown children do. -/
theorem lineBreak_suffix_render (h : node.Everywhere fun node => '\n' ∉ node.data.toList)
    (hn : node.tag ≠ "n") :
    lineBreak <:+ node.render standard scope ↔
      node.isMarker = true ∨
        node.tag = "link" ∧ lineBreak <:+ renderAll standard scope node.children.tail := by
  rw [isMarker, beq_iff_eq]
  by_cases hm : node.tag = markerTag
  · have hbreak : node.render standard scope = lineBreak := by
      rw [render_eq, hm, HandlerTable.lookup_markerTag]
      rfl
    simp [hm, hbreak]
  by_cases hlink : node.tag = "link"
  · rw [lineBreak_suffix_render_link h hlink, or_iff_right hm, and_iff_right hlink]
  · refine iff_of_false ?_ (by simp [hm, hlink])
    rw [render_eq]
    cases hl : standard.lookup node.tag with
    | none => exact not_suffix_of_lineFeed_not_mem (by simp)
    | some entry =>
      refine write_not_suffix hl ?_ ?_ h _
      · exact fun hh => (HandlerTable.tag_of_lineBreak hl hh).elim hm hn
      · exact fun hh => hlink (HandlerTable.tag_of_linkText hl hh)

/-- A list ends in the line break of the last node that is written as anything. -/
theorem lineBreak_suffix_renderAll {nodes : List Node}
    (h : ∀ node ∈ nodes, InComment (node.render standard scope)) :
    lineBreak <:+ renderAll standard scope nodes ↔
      ∃ before node after, nodes = before ++ node :: after ∧
        (∀ hidden ∈ after, hidden.render standard scope = []) ∧
        lineBreak <:+ node.render standard scope := by
  induction nodes with
  | nil =>
    have hnil : ¬ lineBreak <:+ [] := not_suffix_of_lineFeed_not_mem (by simp)
    simpa using hnil
  | cons first rest ih =>
    have hrest : ∀ node ∈ rest, InComment (node.render standard scope) :=
      fun node hmem => h node (List.mem_cons_of_mem _ hmem)
    have hempty : renderAll standard scope rest = [] ↔
        ∀ hidden ∈ rest, hidden.render standard scope = [] := List.flatMap_eq_nil_iff
    rw [renderAll_cons, lineBreak_suffix_append (h first List.mem_cons_self)
      (inComment_closed.renderAll hrest), ih hrest, hempty]
    constructor
    · rintro (⟨before, node, after, rfl, hafter, hs⟩ | ⟨hafter, hs⟩)
      · exact ⟨first :: before, node, after, rfl, hafter, hs⟩
      · exact ⟨[], first, rest, rfl, hafter, hs⟩
    · rintro ⟨before, node, after, he, hafter, hs⟩
      cases before with
      | nil =>
        obtain ⟨rfl, rfl⟩ := List.cons.inj he
        exact .inr ⟨hafter, hs⟩
      | cons _ before =>
        obtain ⟨rfl, rfl⟩ := List.cons.inj he
        exact .inl ⟨before, node, after, rfl, hafter, hs⟩

variable (scope) in
/-- A marker with nothing but hidden nodes behind it, or a link that shows children of this kind,
and nothing but hidden nodes behind it. -/
inductive Uncovered : List Node → Prop
  | marker {before after : List Node} {node : Node} : node.isMarker = true → after ≠ [] →
      (∀ hidden ∈ after, hidden.render standard scope = []) →
      Uncovered (before ++ node :: after)
  | link {before after : List Node} {node : Node} : node.tag = "link" →
      Uncovered node.children.tail → (∀ hidden ∈ after, hidden.render standard scope = []) →
      Uncovered (before ++ node :: after)

/-- What the prepared tree has at every node, if no data of the record breaks a line. -/
def IsSettled (node : Node) : Prop :=
  '\n' ∉ node.data.toList ∧ node.tag ≠ "n" ∧ endsInMarker node.children = false

theorem endsInMarker_tail {nodes : List Node} (h : endsInMarker nodes = false) :
    endsInMarker nodes.tail = false := by
  cases nodes with
  | nil => rfl
  | cons first rest =>
    cases rest with
    | nil => rfl
    | cons second rest => simpa [endsInMarker] using h

/-- A settled list, from the same fact about the shown children of its nodes. -/
theorem lineBreak_suffix_iff_of_inside {nodes : List Node}
    (hsettled : ∀ node ∈ nodes, node.Everywhere IsSettled) (hend : endsInMarker nodes = false)
    (hinside : ∀ node ∈ nodes, lineBreak <:+ renderAll standard scope node.children.tail ↔
      Uncovered scope node.children.tail) :
    lineBreak <:+ renderAll standard scope nodes ↔ Uncovered scope nodes := by
  have hdata : ∀ node ∈ nodes, node.Everywhere fun node => '\n' ∉ node.data.toList :=
    fun node hm => (hsettled node hm).mono fun _ h => h.1
  have hrender : ∀ node ∈ nodes, lineBreak <:+ node.render standard scope ↔
      node.isMarker = true ∨ node.tag = "link" ∧ Uncovered scope node.children.tail := by
    intro node hm
    rw [lineBreak_suffix_render (hdata node hm) (hsettled node hm).holds.2.1, hinside node hm]
  rw [lineBreak_suffix_renderAll fun node hm => render_inComment (hdata node hm)]
  constructor
  · rintro ⟨before, node, after, rfl, hafter, hs⟩
    rcases (hrender node (by simp)).1 hs with hmarker | ⟨hlink, hun⟩
    · refine .marker hmarker ?_ hafter
      rintro rfl
      simp [endsInMarker, hmarker] at hend
    · exact .link hlink hun hafter
  · intro hun
    cases hun with
    | marker hmarker _ hafter =>
      exact ⟨_, _, _, rfl, hafter, (hrender _ (by simp)).2 (.inl hmarker)⟩
    | link hlink hun hafter =>
      exact ⟨_, _, _, rfl, hafter, (hrender _ (by simp)).2 (.inr ⟨hlink, hun⟩)⟩

theorem lineBreak_suffix_children_tail (h : node.Everywhere IsSettled) :
    lineBreak <:+ renderAll standard scope node.children.tail ↔
      Uncovered scope node.children.tail := by
  induction h with
  | intro holds inside ih =>
    exact lineBreak_suffix_iff_of_inside (fun child hm => inside child (List.mem_of_mem_tail hm))
      (endsInMarker_tail holds.2.2) fun child hm => ih child (List.mem_of_mem_tail hm)

/-- A settled list ends in a line break exactly if it is uncovered. -/
theorem lineBreak_suffix_iff_uncovered {nodes : List Node}
    (hsettled : ∀ node ∈ nodes, node.Everywhere IsSettled) (hend : endsInMarker nodes = false) :
    lineBreak <:+ renderAll standard scope nodes ↔ Uncovered scope nodes :=
  lineBreak_suffix_iff_of_inside hsettled hend fun node hm =>
    lineBreak_suffix_children_tail (hsettled node hm)

/-- No list is uncovered in a tree where every child is written as something. -/
theorem not_uncovered {nodes : List Node}
    (hshown : ∀ node ∈ nodes, node.render standard scope ≠ [])
    (hinside : ∀ node ∈ nodes, node.Everywhere fun node =>
      ∀ child ∈ node.children, child.render standard scope ≠ []) :
    ¬ Uncovered scope nodes := by
  intro hun
  induction hun with
  | marker _ hne hafter =>
    obtain ⟨hidden, hm⟩ := List.exists_mem_of_ne_nil _ hne
    exact hshown hidden (by simp [hm]) (hafter hidden hm)
  | @link _ _ node _ _ _ ih =>
    have hnode := hinside node (by simp)
    exact ih (fun child hm => hnode.holds child (List.mem_of_mem_tail hm))
      fun child hm => hnode.inside child (List.mem_of_mem_tail hm)

/-- The text of a node that shows its children ends in a line break exactly if they are
uncovered. -/
theorem everywhere_iff_uncovered (h : node.Everywhere IsSettled) :
    node.Everywhere fun node => node.isLeaf = false →
      (lineBreak <:+ node.renderBody standard scope ↔ Uncovered scope node.children) := by
  induction h with
  | intro holds inside ih =>
    refine .intro (fun hleaf => ?_) ih
    rw [renderBody, hleaf]
    exact lineBreak_suffix_iff_uncovered inside holds.2.2

/-- The prepared tree is settled at every node, its root included. -/
theorem everywhere_isSettled_shifted (scope : Scope) (nodes : List Node)
    (h : ∀ node ∈ nodes, node.Everywhere fun node => '\n' ∉ node.data.toList ∧ node.tag ≠ "n") :
    (atStage standard scope nodes .shifted).Everywhere IsSettled := by
  have hsettle : ∀ node : Node, '\n' ∉ node.data.toList ∧ node.tag ≠ "n" →
      (settle node).1.IsSettled := by
    rintro node ⟨hdata, htag⟩
    refine ⟨by simpa using hdata, by simpa using htag, ?_⟩
    rw [settle_children]
    exact endsInMarker_rdropWhile _
  refine .intro ⟨?_, ?_, endsInMarker_rdropWhile _⟩ ?_
  · simp [atStage, trimMarkers, shiftMarkers, root]
  · simp [atStage, trimMarkers, shiftMarkers, root]
  · refine everywhere_shifted_of_everywhere _ _ ?_ hsettle ?_ h
    · exact ⟨by decide, by decide, rfl⟩
    · simp [summaryOf]

/-- In a prepared tree the text of a node's children ends in a line break exactly where a marker is
uncovered, and so nowhere if every child is written as something. -/
theorem lineBreak_suffix_shifted (scope : Scope) (nodes : List Node)
    (h : ∀ node ∈ nodes, node.Everywhere fun node => '\n' ∉ node.data.toList ∧ node.tag ≠ "n") :
    ((atStage standard scope nodes .shifted).Everywhere fun node => node.isLeaf = false →
        (lineBreak <:+ node.renderBody standard scope ↔ Uncovered scope node.children)) ∧
      (((atStage standard scope nodes .shifted).Everywhere fun node =>
          ∀ child ∈ node.children, child.render standard scope ≠ []) →
        (atStage standard scope nodes .shifted).Everywhere fun node => node.isLeaf = false →
          ¬ lineBreak <:+ node.renderBody standard scope) := by
  have hiff : (atStage standard scope nodes .shifted).Everywhere fun node => node.isLeaf = false →
      (lineBreak <:+ node.renderBody standard scope ↔ Uncovered scope node.children) :=
    everywhere_iff_uncovered (everywhere_isSettled_shifted scope nodes h)
  refine ⟨hiff, fun hshown => (hiff.and hshown.subtrees).mono ?_⟩
  rintro node ⟨hnode, hchildren⟩ hleaf
  rw [hnode hleaf]
  exact not_uncovered hchildren.holds hchildren.inside

/-- A blank line at the end of two elements and of the comment. -/
def boldReturns : List Node :=
  [{ tag := "returns", children := [{ tag := "b", children := [.text "a", .marker] }] }]

theorem lineBreak_suffix_shifted_boldReturns :
    (∀ node ∈ boldReturns, node.Everywhere fun node => '\n' ∉ node.data.toList ∧ node.tag ≠ "n") ∧
      ((atStage standard Scope.all boldReturns .shifted).Everywhere fun node =>
        ∀ child ∈ node.children, child.render standard Scope.all ≠ []) ∧
      (atStage standard Scope.all boldReturns .shifted).Everywhere fun node => node.isLeaf = false →
        ¬ lineBreak <:+ node.renderBody standard Scope.all :=
  have h : ∀ node ∈ boldReturns,
      node.Everywhere fun node => '\n' ∉ node.data.toList ∧ node.tag ≠ "n" := by decide
  have hshown : (atStage standard Scope.all boldReturns .shifted).Everywhere fun node =>
      ∀ child ∈ node.children, child.render standard Scope.all ≠ [] := by decide +kernel
  ⟨h, hshown, (lineBreak_suffix_shifted Scope.all boldReturns h).2 hshown⟩

/-- A line of text, a blank line and a command that is written as nothing. -/
def hiddenDetails : List Node :=
  [{ tag := "returns", children := [.text "a", .marker, { tag := "details" }] }]

/-- A line break stays at the end where a command without an entry stands behind it. -/
theorem not_forall_lineBreak_suffix_shifted :
    ¬ ∀ (scope : Scope) (nodes : List Node),
      (∀ node ∈ nodes, node.Everywhere fun node => '\n' ∉ node.data.toList ∧ node.tag ≠ "n") →
      (atStage standard scope nodes .shifted).Everywhere fun node => node.isLeaf = false →
        ¬ lineBreak <:+ node.renderBody standard scope := by
  intro h
  have hall := h Scope.all hiddenDetails (by decide)
  revert hall
  decide +kernel

end Node

end DocComment
