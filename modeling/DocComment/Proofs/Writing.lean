import DocComment.Proofs.Everywhere
import DocComment.Proofs.StandardTable

/-!
# Classes of text closed under writing

Most properties of a comment are properties of every part of it. A class of text that holds the data
of a tree, and that is closed under the ways to put texts together, holds what the tree is written
to; raw tags and anchors take over text that may be in no such class, and are left to each class.
-/

namespace DocComment

open HandlerTable (standard)

theorem wrapInline_eq (name body : Text) :
    wrapInline name body =
      if body.all isTrailing then element name [] body ++ [' ']
      else element name [] (body.rdropWhile isTrailing) ++ body.rtakeWhile isTrailing := by
  simp only [wrapInline, dropEndWhile_eq_rdropWhile, takeEndWhile_eq_rtakeWhile, isEmpty_rdropWhile]

/-- A class of text closed under what the handlers do, where `ok` tells the characters of the
data. -/
structure ClosedUnderWriting (P : Text → Prop) (ok : Char → Bool) : Prop where
  blank : ok ' ' = true
  hash : ok '#' = true
  plain : ∀ {text : Text}, (∀ c ∈ text, ok c = true) → P text
  literal : ∀ {text : Text}, (∀ c ∈ text, Xml.isPlain c = true ∧ c ≠ '\n') → P text
  reference : ∀ {name : Text}, Xml.isName name = true → P ('&' :: name ++ [';'])
  lineBreak : P lineBreak
  append : ∀ {a b : Text}, P a → P b → P (a ++ b)
  element : ∀ {name body : Text}, Xml.isName name = true → P body → P (element name [] body)
  attributed : ∀ {name key value body : Text}, Xml.isName name = true → Xml.isName key = true →
    (∀ c ∈ value, ok c = true) → P body → P (DocComment.element name (attr key value) body)
  emptyElement : ∀ {name key value : Text}, Xml.isName name = true → Xml.isName key = true →
    (∀ c ∈ value, ok c = true) → P (emptyElement name (attr key value))
  wrapInline : ∀ {name body : Text}, Xml.isName name = true → P body → P (wrapInline name body)
  summary : ∀ {body : Text}, P body → P (summaryStart ++ body ++ summaryEnd)

namespace ClosedUnderWriting

variable {P : Text → Prop} {ok : Char → Bool} {scope : Scope} {node : Node} {entry : Entry}

theorem nil (closed : ClosedUnderWriting P ok) : P [] := closed.plain (by simp)

theorem flatten (closed : ClosedUnderWriting P ok) {pieces : List Text}
    (h : ∀ piece ∈ pieces, P piece) : P pieces.flatten := by
  induction pieces with
  | nil => exact closed.nil
  | cons piece rest ih =>
    rw [List.flatten_cons]
    exact closed.append (h piece List.mem_cons_self)
      (ih fun p hp => h p (List.mem_cons_of_mem _ hp))

/-- The text of a node that is neither a raw tag nor an anchor is in the class of its pieces. -/
theorem write (closed : ClosedUnderWriting P ok) {pieces : List Text}
    (hl : standard.lookup node.tag = some entry)
    (hraw : entry.handler ≠ .rawTag) (hanchor : entry.handler ≠ .anchor)
    (hdata : ∀ c ∈ node.data.toList, ok c = true)
    (hchild : ∀ child ∈ node.children, ∀ c ∈ child.data.toList, ok c = true)
    (hpieces : ∀ piece ∈ pieces, P piece) : P (entry.write scope node pieces) := by
  have hbody : P (if node.isLeaf then [] else pieces.flatten) := by
    split
    · exact closed.nil
    · exact closed.flatten hpieces
  have hrest : P pieces.tail.flatten :=
    closed.flatten fun piece hp => hpieces piece (List.mem_of_mem_tail hp)
  cases hh : entry.handler with
  | wrap =>
    simp only [Entry.write, hh]
    split
    · exact closed.nil
    · exact closed.wrapInline (HandlerTable.isName_argument hl (.inl hh)) hbody
  | literal =>
    simp only [Entry.write, hh]
    rcases HandlerTable.literal_spelling hl hh with hplain | ⟨name, hn, he⟩
    · exact closed.literal hplain
    · rw [he]
      exact closed.reference hn
  | element =>
    simp only [Entry.write, hh, reflow_eq]
    exact closed.element (HandlerTable.isName_elementName hl (.inl hh)) hbody
  | crossReference =>
    simp only [Entry.write, hh]
    split
    · next target hc =>
      exact closed.emptyElement (HandlerTable.isName_elementName hl (.inr hh)) (by decide)
        (hchild target (by simp [hc]))
    · exact closed.nil
  | rawTag => exact absurd hh hraw
  | characterReference =>
    obtain ⟨name, hn, he⟩ := HandlerTable.characterReference_argument hl hh
    simp only [Entry.write, hh, he]
    exact closed.reference hn
  | lineBreak =>
    simp only [Entry.write, hh]
    exact closed.lineBreak
  | plainText =>
    simp only [Entry.write, hh]
    exact closed.plain hdata
  | summary =>
    simp only [Entry.write, hh, reflow_eq]
    exact closed.summary hbody
  | formula =>
    simp only [Entry.write, hh, HandlerTable.formula_argument hl hh]
    apply closed.plain
    intro c hc
    rcases List.mem_cons.1 hc with rfl | hc
    · exact closed.blank
    · obtain ⟨child, hmem, hc⟩ := List.mem_flatMap.1 hc
      exact hchild child hmem c hc
  | block =>
    simp only [Entry.write, hh, reflow_eq]
    exact closed.element (HandlerTable.isName_argument hl (.inr hh)) hbody
  | titledParagraph =>
    simp only [Entry.write, hh, reflow_eq]
    split
    · exact closed.nil
    · next title rest hc =>
      exact closed.attributed (by decide) (by decide) (hchild title (by simp [hc])) hrest
  | parameter =>
    simp only [Entry.write, hh, reflow_eq]
    split
    · exact closed.nil
    · next name rest hc =>
      split
      · exact closed.attributed (by decide) (by decide) (hchild name (by simp [hc])) hrest
      · exact closed.nil
  | anchorLink =>
    have hlink : ∀ target ∈ node.children, ∀ label ∈ node.children,
        P (DocComment.element ['a'] (attr "href".toList ('#' :: target.data.toList))
          label.data.toList) :=
      fun target ht label hlabel => closed.attributed (by decide) (by decide)
        (List.forall_mem_cons.2 ⟨closed.hash, hchild target ht⟩)
          (closed.plain (hchild label hlabel))
    simp only [Entry.write, hh]
    split
    · exact closed.nil
    · next target hc => exact hlink target (by simp [hc]) target (by simp [hc])
    · next target label rest hc => exact hlink target (by simp [hc]) label (by simp [hc])
  | linkText =>
    simp only [Entry.write, hh, reflow_eq]
    split
    · exact closed.nil
    · next target rest hc =>
      have ht := hchild target (by simp [hc])
      refine closed.append (closed.plain fun c hm => ht c ?_) hrest
      exact (List.dropWhile_sublist _).mem (List.mem_of_mem_drop hm)
  | anchor => exact absurd hh hanchor

/-- The text of a tree is in the class if raw tags and anchors are. -/
theorem render (closed : ClosedUnderWriting P ok) {p : Node → Prop}
    (hdata : ∀ node, p node → ∀ c ∈ node.data.toList, ok c = true)
    (hspecial : ∀ node entry, node.Everywhere p → standard.lookup node.tag = some entry →
      entry.handler = .rawTag ∨ entry.handler = .anchor →
      (∀ child ∈ node.children, P (child.render standard scope)) →
      P (entry.write scope node (node.children.map (Node.render standard scope))))
    (h : node.Everywhere p) : P (node.render standard scope) := by
  induction h with
  | @intro node holds inside ih =>
    rw [Node.render_eq]
    cases hl : standard.lookup node.tag with
    | none => exact closed.nil
    | some entry =>
      by_cases hh : entry.handler = .rawTag ∨ entry.handler = .anchor
      · exact hspecial node entry (.intro holds inside) hl hh ih
      · rw [not_or] at hh
        refine closed.write hl hh.1 hh.2 (hdata node holds)
          (fun child hc => hdata child (inside child hc).holds) ?_
        intro piece hp
        obtain ⟨child, hc, rfl⟩ := List.mem_map.1 hp
        exact ih child hc

theorem renderAll (closed : ClosedUnderWriting P ok) {nodes : List Node}
    (h : ∀ node ∈ nodes, P (node.render standard scope)) :
    P (Node.renderAll standard scope nodes) := by
  apply closed.flatten
  intro piece hp
  obtain ⟨node, hn, rfl⟩ := List.mem_map.1 hp
  exact h node hn

end ClosedUnderWriting

end DocComment
