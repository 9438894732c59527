import DocComment.Batch
import DocComment.Proofs.CommentFrame
import DocComment.Proofs.CommentLines
import DocComment.Proofs.Pairwise

/-!
# Sections taken apart

A heading begins with a slash and a comment line with a blank, so in the comments of many
declarations a line says by itself whether it opens a section. The text is taken apart line by line,
which gives back the name and the comment of each declaration; so two lists with one text have the
same names and comments.
-/

namespace DocComment

open HandlerTable (standard)

/-! ## Texts of whole lines -/

/-- Lines put together, with a line feed at the end of each. -/
def closedLines (lines : List Text) : Text := lines.flatMap (· ++ ['\n'])

@[simp] theorem closedLines_nil : closedLines [] = [] := rfl

@[simp] theorem closedLines_cons (line : Text) (rest : List Text) :
    closedLines (line :: rest) = line ++ '\n' :: closedLines rest := by
  simp [closedLines]

/-- Lines are told apart by the line feeds that close them. -/
theorem closedLines_inj {ls ls' : List Text} (hls : ∀ line ∈ ls, '\n' ∉ line)
    (hls' : ∀ line ∈ ls', '\n' ∉ line) (h : closedLines ls = closedLines ls') : ls = ls' := by
  induction ls generalizing ls' with
  | nil =>
    cases ls' with
    | nil => rfl
    | cons line' ls' => simp at h
  | cons line ls ih =>
    cases ls' with
    | nil => simp at h
    | cons line' ls' =>
      obtain ⟨hline, hothers⟩ := List.forall_mem_cons.1 hls
      obtain ⟨hline', hothers'⟩ := List.forall_mem_cons.1 hls'
      rw [closedLines_cons, closedLines_cons] at h
      obtain ⟨rfl, hrest⟩ := append_cons_inj_of_not_mem hline hline' h
      rw [ih hothers hothers' hrest]

theorem unlines_concat_lineFeed (first : Text) (rest : List Text) :
    unlines first rest ++ ['\n'] = closedLines (first :: rest) := by
  induction rest generalizing first with
  | nil => simp [unlines, join]
  | cons line rest ih =>
    rw [unlines_cons, List.append_assoc, List.cons_append, ih, closedLines_cons first]

/-- A text that goes on with comment lines consists of them, once a line feed closes the last
one. -/
theorem exists_closedLines_of_continued {text : Text} (hstart : lineStart <+: text)
    (h : Continued text) :
    ∃ commentLines, text ++ ['\n'] = closedLines commentLines ∧
      ∀ line ∈ commentLines, '\n' ∉ line ∧ lineStart <+: line := by
  refine ⟨(lines text).1 :: (lines text).2, ?_, ?_⟩
  · rw [← unlines_concat_lineFeed, unlines_lines]
  · obtain ⟨hfirst, hrest⟩ := not_mem_split '\n' text
    intro line hline
    obtain rfl | hline := List.mem_cons.1 hline
    · exact ⟨hfirst, prefix_lines_fst (by decide) hstart⟩
    · exact ⟨hrest line hline, h.lines line hline⟩

/-! ## Taking a text apart -/

/-- What a line that opens a section says behind its mark. -/
def headingName? : Text → Option Text
  | '/' :: '/' :: ' ' :: name => some name
  | _ => none

theorem headingName?_of_lineStart {line : Text} (h : lineStart <+: line) :
    headingName? line = none := by
  obtain ⟨rest, rfl⟩ := h
  rfl

/-- A text taken apart: what stands before the first heading, and each name with what stands below
it. -/
structure Outline where
  before : Text := []
  sections : List (Text × Text) := []
  deriving DecidableEq, Repr

namespace Outline

/-- Puts a line in front. -/
def addLine (line : Text) (outline : Outline) : Outline :=
  match headingName? line with
  | some name => { before := [], sections := (name, outline.before) :: outline.sections }
  | none => { outline with before := line ++ '\n' :: outline.before }

/-- What comes behind the last line feed is no line. -/
def ofText (text : Text) : Outline :=
  ((lines text).1 :: (lines text).2).dropLast.foldr addLine {}

theorem ofText_line {line : Text} (h : '\n' ∉ line) (text : Text) :
    ofText (line ++ '\n' :: text) = (ofText text).addLine line := by
  have hlines : lines (line ++ '\n' :: text) = (line, (lines text).1 :: (lines text).2) := by
    rw [lines, split_append h]
    simp [split, lines]
  rw [ofText, hlines, List.dropLast_cons_cons, List.foldr_cons, ofText]

/-- Lines that open no section stay with what comes before the first heading. -/
theorem ofText_closedLines {body : List Text}
    (h : ∀ line ∈ body, '\n' ∉ line ∧ headingName? line = none) (text : Text) :
    ofText (closedLines body ++ text) =
      { ofText text with before := closedLines body ++ (ofText text).before } := by
  induction body with
  | nil => rfl
  | cons line rest ih =>
    obtain ⟨⟨hfeed, hname⟩, hrest⟩ := List.forall_mem_cons.1 h
    rw [closedLines_cons, List.append_assoc, List.cons_append, ofText_line hfeed, ih hrest, addLine,
      hname]
    simp

end Outline

namespace Declaration

variable {options : Options} {declaration : Declaration}

/-- The name and the data of a declaration break no line, and its comment is not framed. -/
structure HasLines (options : Options) (declaration : Declaration) : Prop where
  name : '\n' ∉ declaration.name.toList
  written : declaration.comment.isSome = true → declaration.isVerbatim options = false
  data : ∀ node ∈ declaration.tree, node.Everywhere fun node => '\n' ∉ node.data.toList

/-- What is written for a declaration consists of comment lines, of which there are none without a
comment. -/
theorem exists_commentLines (h : declaration.HasLines options) :
    ∃ commentLines, declaration.write standard options = closedLines commentLines ∧
      ∀ line ∈ commentLines, '\n' ∉ line ∧ lineStart <+: line := by
  cases hcomment : declaration.comment with
  | none => exact ⟨[], by simp [write, hcomment], by simp⟩
  | some raw =>
    have hsome : declaration.comment.isSome = true := by rw [hcomment]; rfl
    have hbelow : ∀ child ∈ (Node.atStage standard (declaration.scope options) declaration.tree
        .shifted).children, child.Everywhere fun node => '\n' ∉ node.data.toList :=
      Node.everywhere_shifted_of_everywhere _ _ (by decide) (fun node hnode => by simpa using hnode)
        (by simp [Node.summaryOf]) h.data
    have hinside : InComment (Node.renderAll standard (declaration.scope options)
        (Node.atStage standard (declaration.scope options) declaration.tree .shifted).children) :=
      inComment_closed.renderAll fun child hchild => Node.render_inComment (hbelow child hchild)
    obtain ⟨rest, hrest⟩ := Node.shifted_begins_with_summary standard (declaration.scope options)
      declaration.tree (by simp [HandlerTable.supports])
    have hsummary : " /// <summary>".toList <+:
        (Node.settle (Node.summaryOf declaration.tree)).1.render standard
          (declaration.scope options) :=
      Node.summaryStart_prefix_render _ (Node.settle_tag _)
    rw [write_eq hsome (h.written hsome)]
    refine exists_closedLines_of_continued ?_ hinside.continued
    rw [hrest, Node.renderAll_cons]
    exact (List.IsPrefix.trans (by decide) hsummary).trans (List.prefix_append _ _)

/-- A comment is never empty, not even a framed one. -/
theorem write_eq_nil_iff (table : HandlerTable) (options : Options) (declaration : Declaration) :
    declaration.write table options = [] ↔ declaration.comment = none := by
  cases hcomment : declaration.comment with
  | none => simp [write, hcomment]
  | some raw =>
    have hframe : BlockComment.frame raw.toList ≠ [] :=
      (BlockComment.closing_suffix_frame raw.toList).ne_nil (by decide)
    cases hverbatim : declaration.isVerbatim options <;> simp [write, hcomment, hverbatim, hframe]

/-- A heading opens a section, and the comment behind it is all that stands there. -/
theorem ofText_heading (h : declaration.HasLines options) {text : Text}
    (htext : (Outline.ofText text).before = []) :
    Outline.ofText (declaration.heading ++ declaration.write standard options ++ text) =
      { sections := (declaration.name.toList, declaration.write standard options) ::
          (Outline.ofText text).sections } := by
  obtain ⟨commentLines, hwrite, hlines⟩ := exists_commentLines h
  have hfeed : '\n' ∉ "// ".toList ++ declaration.name.toList := by
    rw [List.mem_append, not_or]
    exact ⟨by decide, h.name⟩
  rw [hwrite, heading, List.append_assoc, List.append_assoc, List.singleton_append,
    Outline.ofText_line hfeed, Outline.ofText_closedLines, htext, List.append_nil]
  · rfl
  · exact fun line hline => ⟨(hlines line hline).1, headingName?_of_lineStart (hlines line hline).2⟩

/-- The comments of several declarations, taken apart, are their names and comments. -/
theorem ofText_writeAll {declarations : List Declaration} (hseveral : 1 < declarations.length)
    (h : ∀ declaration ∈ declarations, declaration.HasLines options) :
    Outline.ofText (writeAll options declarations) =
      { sections := declarations.map fun declaration =>
          (declaration.name.toList, declaration.write standard options) } := by
  simp only [writeAll, sections, if_pos hseveral]
  clear hseveral
  induction declarations with
  | nil => rfl
  | cons declaration rest ih =>
    obtain ⟨hfirst, hrest⟩ := List.forall_mem_cons.1 h
    have htaken := ih hrest
    rw [List.flatMap_cons, ofText_heading hfirst (by rw [htaken]), htaken, List.map_cons]

/-- Several declarations are told apart in the text of all their comments: declarations with the
same text have, one by one, the same name and the same comment, or both none. -/
theorem forall₂_of_writeAll_eq {left right : List Declaration} {options other : Options}
    (hleft : 1 < left.length) (hright : 1 < right.length)
    (hlinesLeft : ∀ declaration ∈ left, declaration.HasLines options)
    (hlinesRight : ∀ declaration ∈ right, declaration.HasLines other)
    (h : writeAll options left = writeAll other right) :
    left.Forall₂ (fun declaration twin =>
      declaration.name = twin.name ∧
        declaration.write standard options = twin.write standard other ∧
        (declaration.comment = none ↔ twin.comment = none)) right := by
  have houtline := congrArg (fun text => (Outline.ofText text).sections) h
  simp only [ofText_writeAll hleft hlinesLeft, ofText_writeAll hright hlinesRight] at houtline
  rw [← List.forall₂_eq_eq_eq, List.forall₂_map_left_iff, List.forall₂_map_right_iff] at houtline
  refine houtline.imp fun declaration twin hsame => ?_
  obtain ⟨hname, hwrite⟩ := Prod.mk.inj hsame
  refine ⟨String.toList_inj.mp hname, hwrite, ?_⟩
  rw [← write_eq_nil_iff standard options, ← write_eq_nil_iff standard other, hwrite]

/-- A name that looks like a comment line, and a declaration without a comment behind it. -/
def headedDeclarations : List Declaration :=
  [{ name := " /// <summary>", comment := some "raw",
     tree := [{ tag := "brief", children := [.text "// g"] }] },
    { name := "" }]

/-- The same with nodes that are not written, and with other settings. -/
def dressedDeclarations : List Declaration :=
  [{ name := " /// <summary>", comment := some "other",
     tree := [
       .marker,
       { tag := "partofdescription", children := [.text "// ", .text "g", .marker] },
       { tag := "unheard-of", children := [.text "lost"] }] },
    { name := "", features := { notranslate := true }, tree := [.text "lost"] }]

theorem forall₂_of_writeAll_eq_dressed :
    (∀ declaration ∈ headedDeclarations, declaration.HasLines {}) ∧
      (∀ declaration ∈ dressedDeclarations, declaration.HasLines { keepUnknownParams := true }) ∧
      writeAll {} headedDeclarations = writeAll { keepUnknownParams := true } dressedDeclarations ∧
      headedDeclarations.map Declaration.name = dressedDeclarations.map Declaration.name := by
  have hleft : ∀ declaration ∈ headedDeclarations, declaration.HasLines {} := by
    simp only [headedDeclarations, List.forall_mem_cons]
    exact ⟨⟨by decide, by decide, by decide⟩, ⟨by decide, by decide, by decide⟩, by simp⟩
  have hright : ∀ declaration ∈ dressedDeclarations,
      declaration.HasLines { keepUnknownParams := true } := by
    simp only [dressedDeclarations, List.forall_mem_cons]
    exact ⟨⟨by decide, by decide, by decide⟩, ⟨by decide, by decide, by decide⟩, by simp⟩
  have hsame : writeAll {} headedDeclarations =
      writeAll { keepUnknownParams := true } dressedDeclarations := by decide +kernel
  have htwins := forall₂_of_writeAll_eq (by decide) (by decide) hleft hright hsame
  exact ⟨hleft, hright, hsame, map_eq_of_forall₂ htwins fun _ _ _ htwin => htwin.1⟩

end Declaration

end DocComment
