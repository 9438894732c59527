import DocComment.Proofs.Preparation
import DocComment.Proofs.Writing

/-!
# Every line is a comment line

No data breaks a line, so line feeds come from line breaks and summaries only, and both go on with
the start of the next comment line. The one place where text is cut is the end of a wrap, and the
cut stops at a slash: a line feed never loses the start of its line.
-/

namespace DocComment

open HandlerTable (standard)

/-- What each comment line begins with. -/
def lineStart : Text := " ///".toList

/-- Every line feed is followed by the start of a comment line and something behind it. -/
inductive Continued : Text → Prop
  | nil : Continued []
  | char {c : Char} {rest : Text} : c ≠ '\n' → Continued rest → Continued (c :: rest)
  | lineFeed {c : Char} {rest : Text} : Continued (lineStart ++ c :: rest) →
      Continued ('\n' :: (lineStart ++ c :: rest))

namespace Continued

variable {a b text : Text} {c : Char}

theorem of_not_mem (h : '\n' ∉ text) : Continued text := by
  induction text with
  | nil => exact .nil
  | cons c rest ih =>
    rw [List.mem_cons, not_or] at h
    exact .char (Ne.symm h.1) (ih h.2)

theorem append (ha : Continued a) (hb : Continued b) : Continued (a ++ b) := by
  induction ha with
  | nil => exact hb
  | char hc _ ih => exact .char hc ih
  | lineFeed _ ih =>
    simp only [List.cons_append, List.append_assoc] at ih ⊢
    exact .lineFeed ih

theorem tail (h : Continued (c :: text)) : Continued text := by
  cases h with
  | char _ h => exact h
  | lineFeed h => exact h

theorem after_lineFeed (h : Continued ('\n' :: text)) :
    ∃ next more, text = lineStart ++ next :: more := by
  cases h with
  | char hc _ => exact absurd rfl hc
  | lineFeed _ => exact ⟨_, _, rfl⟩

theorem right (h : Continued (a ++ b)) : Continued b := by
  induction a with
  | nil => exact h
  | cons c rest ih => exact ih h.tail

/-- Text without slashes has no room for the start of a line. -/
theorem lineFeed_not_mem (h : Continued text) (hslash : '/' ∉ text) : '\n' ∉ text := by
  induction h with
  | nil => simp
  | char hc _ ih =>
    rw [List.mem_cons, not_or] at hslash ⊢
    exact ⟨Ne.symm hc, ih hslash.2⟩
  | lineFeed _ _ => exact absurd (by simp [lineStart]) hslash

/-- The start of a line ends in a slash, so it stands as a whole before a tail without slashes. -/
theorem lineStart_prefix_of_append {tail more : Text} (hslash : '/' ∉ tail)
    (h : a ++ tail = lineStart ++ more) : ∃ rest, a = lineStart ++ rest := by
  rcases List.append_eq_append_iff.1 h with ⟨left, hstart, htail⟩ | ⟨rest, ha, _⟩
  · have hleft : left = [] := by
      cases hlast : left.getLast? with
      | none => exact List.getLast?_eq_none_iff.1 hlast
      | some last =>
        have hend : (a ++ left).getLast? = some last := by simp [hlast]
        rw [← hstart] at hend
        have hl : last = '/' := by simpa [lineStart] using hend.symm
        exact absurd (htail ▸ List.mem_append_left _ (hl ▸ List.mem_of_getLast? hlast)) hslash
    exact ⟨[], by rw [hstart, hleft]; simp⟩
  · exact ⟨rest, ha⟩

/-- A tail without slashes can be cut off and replaced. -/
theorem cut {tail : Text} (h : Continued (a ++ tail)) (hslash : '/' ∉ tail)
    (hb : Continued (c :: b)) : Continued (a ++ c :: b) := by
  induction a with
  | nil => exact hb
  | cons x rest ih =>
    have hrest := ih h.tail
    by_cases hx : x = '\n'
    · rw [hx, List.cons_append] at h
      obtain ⟨next, more, he⟩ := h.after_lineFeed
      obtain ⟨front, rfl⟩ := lineStart_prefix_of_append hslash he
      rw [hx, List.cons_append]
      rw [List.append_assoc] at hrest ⊢
      cases front with
      | nil => exact .lineFeed hrest
      | cons d front => exact .lineFeed hrest
    · exact .char hx hrest

theorem attr {name : Text} (hn : '\n' ∉ name) (hv : Continued text) :
    Continued (attr name text) := by
  have hname : Continued name := .of_not_mem hn
  simp only [DocComment.attr, List.cons_append, List.append_assoc]
  exact .char (by decide) (hname.append (.char (by decide) (.char (by decide)
    (hv.append (.of_not_mem (by decide))))))

end Continued

/-- Text inside a comment: no line feed at its start, and a new comment line behind each line
feed. -/
structure InComment (text : Text) : Prop where
  start : text.head? ≠ some '\n'
  continued : Continued text

namespace InComment

variable {a b name attributes body text : Text}

theorem of_not_mem (h : '\n' ∉ text) : InComment text := by
  refine ⟨fun hstart => h (List.mem_of_head? hstart), .of_not_mem h⟩

theorem append (ha : InComment a) (hb : InComment b) : InComment (a ++ b) := by
  refine ⟨?_, ha.continued.append hb.continued⟩
  cases a with
  | nil => exact hb.start
  | cons c rest => exact ha.start

theorem element (hn : '\n' ∉ name) (ha : Continued attributes) (hb : Continued body) :
    InComment (element name attributes body) := by
  have hname : Continued name := .of_not_mem hn
  refine ⟨by simp [DocComment.element], ?_⟩
  simp only [DocComment.element, List.cons_append, List.append_assoc]
  exact .char (by decide) (hname.append (ha.append (.char (by decide) (hb.append
    (.char (by decide) (.char (by decide) (hname.append (.of_not_mem (by decide)))))))))

/-- The blanks moved behind a wrap hold no line feed, since a slash would stand behind it. -/
theorem wrapInline (hn : '\n' ∉ name) (hb : Continued body) : InComment (wrapInline name body) := by
  rw [wrapInline_eq]
  by_cases hk : body.all isTrailing
  · simp only [hk, if_true]
    exact (InComment.element hn (.of_not_mem (by decide)) hb).append (.of_not_mem (by decide))
  · simp only [hk]
    have hslash : '/' ∉ body.rtakeWhile isTrailing := by
      intro hm
      have := List.mem_rtakeWhile_imp hm
      simp [isTrailing] at this
    rw [← List.rdropWhile_append_rtakeWhile (p := isTrailing) (l := body)] at hb
    have htail : '\n' ∉ body.rtakeWhile isTrailing := hb.right.lineFeed_not_mem hslash
    have hname : Continued name := .of_not_mem hn
    have hclose : Continued ('<' :: '/' :: name ++ ['>']) :=
      .char (by decide) (.char (by decide) (hname.append (.of_not_mem (by decide))))
    have helement : InComment (DocComment.element name [] (body.rdropWhile isTrailing)) := by
      refine ⟨by simp [DocComment.element], ?_⟩
      have hkept := hb.cut hslash hclose
      simp only [DocComment.element, List.cons_append, List.append_assoc] at hkept ⊢
      exact .char (by decide) (hname.append (.char (by decide) hkept))
    exact helement.append (.of_not_mem htail)

theorem summary (hb : Continued body) : InComment (summaryStart ++ body ++ summaryEnd) := by
  have hhead : summaryStart.head? = some ' ' := by decide
  have hstart : Continued summaryStart := by
    have he : summaryStart = " /// <summary>".toList ++ '\n' :: (lineStart ++ [' ']) := by decide
    rw [he]
    exact .append (.of_not_mem (by decide)) (.lineFeed (.of_not_mem (by decide)))
  have hend : Continued summaryEnd := by
    have he : summaryEnd = '\n' :: (lineStart ++ ' ' :: "</summary>".toList) := by decide
    rw [he]
    exact .lineFeed (.of_not_mem (by decide))
  refine ⟨?_, (hstart.append hb).append hend⟩
  simp [List.head?_append, hhead]

theorem lineBreak : InComment lineBreak := by
  have he : DocComment.lineBreak = ' ' :: '\n' :: (lineStart ++ [' ']) := by decide
  rw [he]
  exact ⟨by simp, .char (by decide) (.lineFeed (.of_not_mem (by decide)))⟩

end InComment

theorem lineFeed_not_mem_of_isName {name : Text} (h : Xml.isName name = true) : '\n' ∉ name :=
  fun hm => absurd (Xml.isAlphanum_of_isName h hm) (by decide)

theorem lineFeed_not_mem_iff {text : Text} : '\n' ∉ text ↔ ∀ c ∈ text, (c != '\n') = true := by
  simp only [bne_iff_ne]
  exact ⟨fun h c hc he => h (he ▸ hc), fun h hm => h '\n' hm rfl⟩

/-- Text inside a comment is closed under writing, with data that breaks no line. -/
theorem inComment_closed : ClosedUnderWriting InComment (· != '\n') where
  blank := by decide
  hash := by decide
  plain h := .of_not_mem (lineFeed_not_mem_iff.2 h)
  literal h := .of_not_mem fun hm => (h '\n' hm).2 rfl
  reference hn := by
    have hname : Continued _ := .of_not_mem (lineFeed_not_mem_of_isName hn)
    exact ⟨by simp, .char (by decide) (hname.append (.of_not_mem (by decide)))⟩
  lineBreak := .lineBreak
  append := .append
  element hn hb := .element (lineFeed_not_mem_of_isName hn) (.of_not_mem (by decide)) hb.continued
  attributed hn hk hv hb := .element (lineFeed_not_mem_of_isName hn)
    (.attr (lineFeed_not_mem_of_isName hk) (.of_not_mem (lineFeed_not_mem_iff.2 hv))) hb.continued
  emptyElement hn hk hv := by
    have hname : Continued _ := .of_not_mem (lineFeed_not_mem_of_isName hn)
    have hattr := Continued.attr (lineFeed_not_mem_of_isName hk)
      (.of_not_mem (lineFeed_not_mem_iff.2 hv))
    refine ⟨by simp [emptyElement], ?_⟩
    simp only [emptyElement, List.cons_append, List.append_assoc]
    exact .char (by decide) (hname.append (hattr.append (.of_not_mem (by decide))))
  wrapInline hn hb := .wrapInline (lineFeed_not_mem_of_isName hn) hb.continued
  summary hb := .summary hb.continued

namespace Node

variable {scope : Scope} {node : Node} {entry : Entry}

theorem write_rawTag_inComment (hl : standard.lookup node.tag = some entry)
    (hh : entry.handler = .rawTag) (hdata : '\n' ∉ node.data.toList) (pieces : List Text) :
    InComment (entry.write scope node pieces) := by
  have hargument := HandlerTable.lineFeed_not_mem_argument hl
  apply InComment.of_not_mem
  simp only [Entry.write, hh]
  split
  · split
    · simpa using fun hm => hargument (List.mem_of_mem_tail hm)
    · simpa using hargument
  · simpa using ⟨hargument, hdata⟩

/-- A tree whose data breaks no line is written inside a comment. -/
theorem render_inComment (h : node.Everywhere fun node => '\n' ∉ node.data.toList) :
    InComment (node.render standard scope) := by
  refine inComment_closed.render (fun _ hdata => lineFeed_not_mem_iff.1 hdata) ?_ h
  intro node entry hnode hl hh ih
  rcases hh with hh | hh
  · exact write_rawTag_inComment hl hh hnode.holds _
  · have hbody : InComment (if node.isLeaf then [] else
        (node.children.map (render standard scope)).flatten) := by
      split
      · exact inComment_closed.nil
      · apply inComment_closed.flatten
        intro piece hp
        obtain ⟨child, hc, rfl⟩ := List.mem_map.1 hp
        exact ih child hc
    simp only [Entry.write, hh]
    exact .element (by decide) (.attr (by decide) hbody.continued) .nil

/-- A summary begins with its start tag, on a comment line of its own. -/
theorem summaryStart_prefix_render (node : Node) (h : node.tag = "summary") :
    " /// <summary>".toList <+: node.render standard scope := by
  rw [render_eq, h, HandlerTable.lookup_summary]
  simp only [Entry.write, List.append_assoc]
  exact List.IsPrefix.trans (by decide) (List.prefix_append summaryStart _)

end Node

section Lines

variable {text : Text}

/-- What a text begins with on its first line, the first line begins with. -/
theorem prefix_lines_fst {start : Text} (hn : '\n' ∉ start) (h : start <+: text) :
    start <+: (lines text).1 := by
  induction start generalizing text with
  | nil => exact List.nil_prefix
  | cons c start ih =>
    rw [List.mem_cons, not_or] at hn
    obtain ⟨rest, rfl⟩ := h
    have hrest := ih hn.2 (List.prefix_append start rest)
    have hc : c ≠ '\n' := Ne.symm hn.1
    simp only [lines, List.cons_append, split, hc, if_false]
    exact (List.prefix_cons_inj c).2 hrest

theorem Continued.lines (h : Continued text) : ∀ line ∈ (lines text).2, lineStart <+: line := by
  induction h with
  | nil => simp [DocComment.lines, split]
  | char hc _ ih =>
    simp only [DocComment.lines, split, hc, if_false]
    exact ih
  | @lineFeed next more _ ih =>
    have hfirst : lineStart <+: (DocComment.lines (lineStart ++ next :: more)).1 :=
      prefix_lines_fst (by decide) (List.prefix_append lineStart (next :: more))
    simp only [DocComment.lines, split, if_true]
    exact List.forall_mem_cons.2 ⟨hfirst, ih⟩

theorem lines_concat_lineFeed (text : Text) :
    lines (text ++ ['\n']) = ((lines text).1, (lines text).2 ++ [[]]) := by
  induction text with
  | nil => rfl
  | cons c rest ih =>
    simp only [lines] at ih
    by_cases hc : c = '\n'
    · simp [lines, split, hc, ih]
    · simp [lines, split, hc, ih]

/-- Lines of a continued text that begins with the start of one, ended by a line feed. -/
theorem lineStart_prefix_of_continued (hstart : lineStart <+: text) (h : Continued text) :
    ∃ commentLines : List Text,
      (lines (text ++ ['\n'])).1 :: (lines (text ++ ['\n'])).2 = commentLines ++ [[]] ∧
        ∀ line ∈ commentLines, lineStart <+: line := by
  refine ⟨(lines text).1 :: (lines text).2, by rw [lines_concat_lineFeed]; rfl, ?_⟩
  intro line hline
  rcases List.mem_cons.1 hline with rfl | hline
  · exact prefix_lines_fst (by decide) hstart
  · exact h.lines line hline

end Lines

namespace Declaration

/-- A comment written from data that breaks no line begins with the summary, ends with a line feed,
and has the start of a comment line on every line before that. -/
theorem write_comment_lines (options : Options) (declaration : Declaration)
    (hcomment : declaration.comment.isSome = true)
    (hverbatim : declaration.isVerbatim options = false)
    (hdata : ∀ node ∈ declaration.tree, node.Everywhere fun node => '\n' ∉ node.data.toList) :
    " /// <summary>".toList <+: declaration.write standard options ∧
      (declaration.write standard options).getLast? = some '\n' ∧
      ∃ commentLines : List Text,
        (lines (declaration.write standard options)).1 ::
            (lines (declaration.write standard options)).2 = commentLines ++ [[]] ∧
          ∀ line ∈ commentLines, " ///".toList <+: line := by
  have hbelow : ∀ child ∈ (Node.atStage standard (declaration.scope options) declaration.tree
      .shifted).children, child.Everywhere fun node => '\n' ∉ node.data.toList := by
    refine Node.everywhere_shifted_of_everywhere _ _ ?_ ?_ ?_ hdata
    · decide
    · intro node h
      simpa using h
    · simp [Node.summaryOf]
  have hcontinued : Continued (Node.renderAll standard (declaration.scope options)
      (Node.atStage standard (declaration.scope options) declaration.tree .shifted).children) :=
    (inComment_closed.renderAll fun child hc => Node.render_inComment (hbelow child hc)).continued
  have hstart : " /// <summary>".toList <+: Node.renderAll standard (declaration.scope options)
      (Node.atStage standard (declaration.scope options) declaration.tree .shifted).children := by
    obtain ⟨rest, he⟩ := Node.shifted_begins_with_summary standard (declaration.scope options)
      declaration.tree (by simp [HandlerTable.supports])
    rw [he, Node.renderAll_cons]
    exact (Node.summaryStart_prefix_render _ (Node.settle_tag _)).trans (List.prefix_append _ _)
  rw [write_eq hcomment hverbatim]
  refine ⟨hstart.trans (List.prefix_append _ _), List.getLast?_concat, ?_⟩
  exact lineStart_prefix_of_continued (List.IsPrefix.trans (by decide) hstart) hcontinued

/-- A wrap that ends in a line break behind a blank, and a tag that breaks the line itself. -/
def brokenLines : Declaration where
  name := "f"
  parameters := ["x"]
  comment := some "raw"
  tree := [
    { tag := "brief", children :=
        [.text "Brief ", { tag := "b", children := [.text "bold ", { tag := "n" }] }] },
    { tag := "param\n", children := [.text "x", .marker, { tag := "summary" }], isLeaf := true }]

theorem write_comment_lines_brokenLines :
    (∀ node ∈ brokenLines.tree, node.Everywhere fun node => '\n' ∉ node.data.toList) ∧
      " /// <summary>".toList <+: brokenLines.write standard {} :=
  have hdata : ∀ node ∈ brokenLines.tree, node.Everywhere fun node => '\n' ∉ node.data.toList := by
    decide
  ⟨hdata, (write_comment_lines {} brokenLines rfl rfl hdata).1⟩

end Declaration

end DocComment
