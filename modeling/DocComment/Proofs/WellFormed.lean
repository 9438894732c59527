import DocComment.Proofs.Preparation
import DocComment.Proofs.Writing

/-!
# Comments are well-formed XML

Every handler but the one of raw tags writes a fragment of content from fragments of content, as
long as no data of the tree is read as markup. The preparation of a tree adds only a summary and
markers, so the whole comment is a fragment.
-/

namespace DocComment

open HandlerTable (standard)

namespace Xml

/-- An element around a fragment is a fragment. -/
theorem content_element {name attributes body : Text} (hn : isName name = true)
    (ha : attributes = [] ∨ Attribute attributes) (hb : Content body) :
    Content (element name attributes body) := by
  simpa [element] using Content.element hn ha hb .nil

theorem content_emptyElement {name attributes : Text} (hn : isName name = true)
    (ha : Attribute attributes) : Content (emptyElement name attributes) := by
  simpa [emptyElement] using Content.emptyElement hn ha .nil

theorem attribute_attr {name value : Text} (hn : isName name = true) (hv : AttributeValue value) :
    Attribute (attr name value) := by
  simpa [attr] using Attribute.quoted hn hv

theorem isPlain_of_isTrailing {c : Char} (h : isTrailing c = true) : isPlain c = true := by
  simp only [isTrailing, Bool.or_eq_true, beq_iff_eq] at h
  rcases h with (rfl | rfl) | rfl <;> decide

/-- The blanks at the end of a wrapped fragment are text, so it is cut between two of its parts. -/
theorem content_wrapInline {name body : Text} (hn : isName name = true) (hb : Content body) :
    Content (wrapInline name body) := by
  rw [wrapInline_eq]
  by_cases hk : body.all isTrailing
  · simp only [hk, if_true]
    exact (content_element hn (.inl rfl) hb).append (.of_plain (List.all_eq_true.1 (by decide)))
  · simp only [hk]
    have hkept : Content (body.rdropWhile isTrailing) := hb.rdropWhile (by decide) (by decide)
    have htail : Content (body.rtakeWhile isTrailing) := by
      apply Content.of_plain
      intro c hc
      exact isPlain_of_isTrailing (List.mem_rtakeWhile_imp hc)
    exact (content_element hn (.inl rfl) hkept).append htail

theorem content_summary {body : Text} (hb : Content body) :
    Content (summaryStart ++ body ++ summaryEnd) := by
  have hstart : summaryStart =
      " /// ".toList ++ '<' :: "summary".toList ++ '>' :: "\n /// ".toList := rfl
  have hend : summaryEnd = "\n /// ".toList ++ '<' :: '/' :: "summary".toList ++ ['>'] := rfl
  have hbreak : Content "\n /// ".toList := .of_plain (List.all_eq_true.1 (by decide))
  have hblank : Content " /// ".toList := .of_plain (List.all_eq_true.1 (by decide))
  have helement : Content
      (element "summary".toList [] ("\n /// ".toList ++ body ++ "\n /// ".toList)) :=
    content_element (by decide) (.inl rfl) ((hbreak.append hb).append hbreak)
  have h := hblank.append helement
  rw [hstart, hend]
  simpa only [element, List.append_assoc, List.cons_append, List.nil_append,
    List.append_nil] using h

/-- Fragments are closed under writing, with data that needs no escape. -/
theorem content_closed : ClosedUnderWriting Content isPlain where
  blank := by decide
  hash := by decide
  plain := .of_plain
  literal h := .of_plain fun c hc => (h c hc).1
  reference hn := .reference hn .nil
  lineBreak := .of_plain (List.all_eq_true.1 (by decide))
  append := .append
  element hn hb := content_element hn (.inl rfl) hb
  attributed hn hk hv hb := content_element hn (.inr (attribute_attr hk (.of_plain hv))) hb
  emptyElement hn hk hv := content_emptyElement hn (attribute_attr hk (.of_plain hv))
  wrapInline := content_wrapInline
  summary := content_summary

end Xml

open Xml

namespace Node

/-- A node that stands for no raw tag, whose data needs no escape, and which as an anchor holds only
text. -/
def IsClean (node : Node) : Prop :=
  (∀ entry ∈ standard.lookup node.tag, entry.handler ≠ .rawTag) ∧
    (∀ c ∈ node.data.toList, isPlain c = true) ∧
    (node.tag = "anchor" → ∀ child ∈ node.children, child.tag = textTag ∨ child.isMarker = true)

instance : DecidablePred IsClean := fun node =>
  decidable_of_iff
    ((∀ entry ∈ (HandlerTable.standardEntries.reverse.find? (·.1 = baseCommand node.tag)).map (·.2),
        entry.handler ≠ .rawTag) ∧
      node.data.toList.all isPlain = true ∧
      (node.tag = "anchor" → ∀ child ∈ node.children, child.tag = textTag ∨ child.isMarker = true))
    (by rw [IsClean, HandlerTable.lookup_standard, List.all_eq_true])

variable {scope : Scope} {node : Node} {entry : Entry}

/-- Text and markers are written without markup. -/
theorem render_plain (h : node.tag = textTag ∨ node.isMarker = true)
    (hdata : ∀ c ∈ node.data.toList, isPlain c = true) :
    ∀ c ∈ node.render standard scope, isPlain c = true := by
  rcases h with h | h
  · rw [render_eq, h, HandlerTable.lookup_textTag]
    exact hdata
  · rw [render_eq, beq_iff_eq.1 h, HandlerTable.lookup_markerTag]
    have hbreak : lineBreak.all isPlain = true := by decide
    exact List.all_eq_true.1 hbreak

/-- The identifier of a clean anchor is plain text. -/
theorem write_anchor_content (h : node.Everywhere IsClean) (htag : node.tag = "anchor")
    (hh : entry.handler = .anchor) :
    Content (entry.write scope node (node.children.map (render standard scope))) := by
  have hvalue : ∀ c ∈ (if node.isLeaf then [] else
      (node.children.map (render standard scope)).flatten), isPlain c = true := by
    split
    · simp
    · intro c hc
      obtain ⟨piece, hp, hc⟩ := List.mem_flatten.1 hc
      obtain ⟨child, hmem, rfl⟩ := List.mem_map.1 hp
      exact render_plain (h.holds.2.2 htag child hmem) (h.inside child hmem).holds.2.1 c hc
  simp only [Entry.write, hh]
  exact content_element (by decide) (.inr (attribute_attr (by decide) (.of_plain hvalue))) .nil

/-- A tree without raw tags or data to escape is written as a fragment of content. -/
theorem render_content (h : node.Everywhere IsClean) : Content (node.render standard scope) := by
  refine content_closed.render (fun _ hclean => hclean.2.1) ?_ h
  intro node entry hnode hl hh _
  rcases hh with hh | hh
  · exact absurd hh (hnode.holds.1 entry hl)
  · exact write_anchor_content hnode (HandlerTable.tag_of_anchor hl hh) hh

/-- Settling keeps clean nodes clean: an anchor gets no other children than markers. -/
theorem isClean_settle (h : node.IsClean) : (settle node).1.IsClean := by
  obtain ⟨hraw, hdata, hanchor⟩ := h
  refine ⟨by simpa using hraw, by simpa using hdata, ?_⟩
  intro htag child hc
  rw [settle_tag] at htag
  rw [settle_children] at hc
  obtain rfl | ⟨other, ho, rfl⟩ := mem_settleAll ((List.rdropWhile_prefix isMarker _).subset hc)
  · exact .inr rfl
  · simpa using hanchor htag other ho

end Node

namespace Declaration

/-- The comment written from a tree without raw tags or data to escape is well-formed content. -/
theorem write_wellFormed (options : Options) (declaration : Declaration)
    (hcomment : declaration.comment.isSome = true)
    (hverbatim : declaration.isVerbatim options = false)
    (htree : ∀ node ∈ declaration.tree, node.Everywhere Node.IsClean) :
    Content (declaration.write standard options) := by
  have hclean : ∀ child ∈ (Node.atStage standard (declaration.scope options) declaration.tree
      .shifted).children, child.Everywhere Node.IsClean := by
    refine Node.everywhere_shifted_of_everywhere _ _ ?_ ?_ ?_ htree
    · exact ⟨by simp [Node.marker], by simp [Node.marker], by decide⟩
    · intro node h
      exact Node.isClean_settle h
    · exact ⟨by simp [Node.summaryOf], by simp [Node.summaryOf], by simp [Node.summaryOf]⟩
  rw [write_eq hcomment hverbatim]
  refine Content.append ?_ (.of_plain (List.all_eq_true.1 (by decide)))
  exact content_closed.renderAll fun child hc => Node.render_content (hclean child hc)

/-- A parameter described in bold text that ends in a blank and in a line break, behind an
anchor. -/
def boldParameter : Declaration where
  name := "f"
  parameters := ["x"]
  comment := some "raw"
  tree := [
    { tag := "brief", children := [{ tag := "<" }, .text " value"] },
    { tag := "anchor", children := [.text "top"] },
    { tag := "param[in]", children :=
        [.text "x", { tag := "b", children := [.text "bold ", .marker] }] }]

theorem write_wellFormed_boldParameter :
    (∀ node ∈ boldParameter.tree, node.Everywhere Node.IsClean) ∧
      Content (boldParameter.write standard {}) :=
  have htree : ∀ node ∈ boldParameter.tree, node.Everywhere Node.IsClean := by decide +kernel
  ⟨htree, write_wellFormed {} boldParameter rfl rfl htree⟩

end Declaration

end DocComment
