import DocComment.Proofs.Pairwise
import DocComment.Proofs.Reframing

/-!
# The lines of a frame

A frame is described line by line. The first line is opened, each line below it has its asterisk,
and the comment is closed on a line of its own; a blank line at the end of the text gives way to
this one.
-/

namespace DocComment.BlockComment

/-- How far a text is indented that stands below a first line: by the blanks in front of its first
other character, if it has one. -/
inductive IndentedBy : Text → Nat → Prop
  | shown {blanks rest : Text} {c : Char} (hblanks : ∀ b ∈ blanks, isBlank b = true)
      (hc : isBlank c = false) : IndentedBy (blanks ++ c :: rest) blanks.length
  | blank {blanks : Text} (hblanks : ∀ b ∈ blanks, isBlank b = true) : IndentedBy blanks 0

/-- What a line below the first becomes. -/
inductive StarredTo (indent : Nat) : Text → Text → Prop
  /-- A line with an asterisk behind its blanks is kept. -/
  | kept {blanks body : Text} (hblanks : ∀ b ∈ blanks, isBlank b = true) :
      StarredTo indent (blanks ++ '*' :: body) (blanks ++ '*' :: body)
  /-- A blank line becomes an asterisk in line with the end of the comment. -/
  | blank {blanks : Text} (hblanks : ∀ b ∈ blanks, isBlank b = true) :
      StarredTo indent blanks (spaces indent ++ ['*'])
  /-- Any other line gets an asterisk and a blank behind its blanks. -/
  | inserted {blanks body : Text} {c : Char} (hblanks : ∀ b ∈ blanks, isBlank b = true)
      (hc : isBlank c = false) (hstar : c ≠ '*') :
      StarredTo indent (blanks ++ c :: body) (blanks ++ '*' :: ' ' :: c :: body)

theorem starredTo_star (indent : Nat) (line : Text) : StarredTo indent line (star indent line) := by
  have hblanks := isBlank_takeWhile line
  have hline := List.takeWhile_append_dropWhile (p := isBlank) (l := line)
  have hfirst := List.head?_dropWhile_not isBlank line
  rw [star]
  cases hbody : line.dropWhile isBlank with
  | nil =>
    rw [hbody, List.append_nil] at hline
    exact .blank (hline ▸ hblanks)
  | cons c body =>
    rw [hbody] at hline hfirst
    by_cases hstar : c = '*'
    · subst hstar
      rw [← hline]
      exact .kept hblanks
    · have hc : isBlank c = false := by simpa using hfirst
      have hinserted : StarredTo indent (line.takeWhile isBlank ++ c :: body)
          (line.takeWhile isBlank ++ '*' :: ' ' :: c :: body) := .inserted hblanks hc hstar
      rw [hline] at hinserted
      simpa [hstar] using hinserted

/-- The indentation is measured below the first line. -/
theorem indentedBy_indentation {first : Text} (hfirst : '\n' ∉ first) (below : Text) :
    IndentedBy below (indentation (first ++ '\n' :: below)) := by
  have hparts := List.takeWhile_append_dropWhile (p := isBlank) (l := below)
  have hother := List.head?_dropWhile_not isBlank below
  rw [indentation, tail_dropWhile_lineFeed hfirst]
  cases hrest : below.dropWhile isBlank with
  | nil =>
    have hall : below.all isBlank = true := List.all_eq_true.2 (List.dropWhile_eq_nil_iff.1 hrest)
    rw [if_pos hall]
    exact .blank (List.all_eq_true.1 hall)
  | cons c rest =>
    rw [hrest] at hparts hother
    have hc : isBlank c = false := by simpa using hother
    have hshown : IndentedBy (below.takeWhile isBlank ++ c :: rest)
        (below.takeWhile isBlank).length :=
      .shown (isBlank_takeWhile below) hc
    have hall : below.all isBlank = false := by
      rw [← hparts]
      simp [hc]
    rw [hparts] at hshown
    simpa [hall] using hshown

theorem append_unlines (front first : Text) (rest : List Text) :
    front ++ unlines first rest = unlines (front ++ first) rest := by
  simp [unlines, join]

/-- The lines of the frame of a text on several lines. -/
theorem lines_frame_unlines {first : Text} {rest : List Text} (hfirst : '\n' ∉ first)
    (hrest : ∀ line ∈ rest, '\n' ∉ line) (hne : rest ≠ []) :
    lines (frame (unlines first rest)) =
      (spaces (indentation (unlines first rest) - 1) ++ "/**".toList ++ first,
        (textLines rest).map (star (indentation (unlines first rest))) ++
          [spaces (indentation (unlines first rest)) ++ "*/".toList, []]) := by
  generalize hindent : indentation (unlines first rest) = indent
  have hframe : frame (unlines first rest) = unlines (spaces (indent - 1) ++ "/**".toList ++ first)
      ((textLines rest).map (star indent) ++ [spaces indent ++ "*/".toList, []]) := by
    rw [frame_eq, content_unlines hfirst hrest hne, hindent, append_unlines,
      List.append_cons _ _ [[]], unlines_concat, unlines_concat, unlines_concat]
    simp
  have hopening : '\n' ∉ spaces (indent - 1) ++ "/**".toList ++ first := by
    simpa [spaces] using hfirst
  have hclosing : '\n' ∉ spaces indent ++ "*/".toList := by simp [spaces]
  have hstarred : ∀ line ∈ (textLines rest).map (star indent), '\n' ∉ line := by
    intro line hline
    obtain ⟨other, ho, rfl⟩ := List.mem_map.1 hline
    exact lineFeed_not_mem_star indent (hrest other (mem_of_mem_textLines ho))
  rw [hframe, lines_unlines hopening]
  intro line hline
  rw [List.mem_append, List.mem_cons, List.mem_singleton] at hline
  rcases hline with hline | rfl | rfl
  · exact hstarred line hline
  · exact hclosing
  · exact List.not_mem_nil

/-- All lines of a frame below the first begin with an asterisk behind their blanks. -/
theorem isStarred_of_mem_frame (indent : Nat) (rest : List Text) :
    ∀ line ∈ rest.map (star indent) ++ [spaces indent ++ "*/".toList], IsStarred line := by
  intro line hline
  rcases List.mem_append.1 hline with hline | hline
  · obtain ⟨other, -, rfl⟩ := List.mem_map.1 hline
    exact isStarred_star indent other
  · rw [List.mem_singleton.1 hline]
    exact isStarred_append _ ['/'] isBlank_spaces

/-- A text on one line is framed on this line. Of any other the first line is opened and each line
below is starred, but for a blank one at the end, and the comment is closed below them in line with
the asterisks of blank lines; every line below the first begins with an asterisk behind its
blanks. -/
theorem lines_frame (doc : Text) :
    ('\n' ∉ doc → frame doc = "/**".toList ++ doc ++ "*/\n".toList) ∧
      ∀ first below, doc = first ++ '\n' :: below → '\n' ∉ first →
        ∃ indent starred, IndentedBy below indent ∧
          List.Forall₂ (StarredTo indent) (textLines ((lines below).1 :: (lines below).2)) starred ∧
          lines (frame doc) = (spaces (indent - 1) ++ "/**".toList ++ first,
            starred ++ [spaces indent ++ "*/".toList, []]) ∧
          ∀ line ∈ starred ++ [spaces indent ++ "*/".toList], IsStarred line := by
  refine ⟨fun hdoc => ?_, fun first below hdoc hfirst => ?_⟩
  · rw [frame_eq, List.append_assoc, ← List.append_assoc (content doc), content_of_not_mem hdoc,
      indentation_of_not_mem hdoc]
    simp [spaces]
  · have hbelow : ∀ line ∈ (lines below).1 :: (lines below).2, '\n' ∉ line :=
      List.forall_mem_cons.2 (not_mem_split '\n' below)
    have hunlines : unlines first ((lines below).1 :: (lines below).2) = doc := by
      rw [unlines_cons, unlines_lines, hdoc]
    have hframe := lines_frame_unlines hfirst hbelow (List.cons_ne_nil _ _)
    rw [hunlines] at hframe
    refine ⟨indentation doc, _, hdoc ▸ indentedBy_indentation hfirst below, ?_, hframe,
      isStarred_of_mem_frame _ _⟩
    rw [List.forall₂_map_right_iff, List.forall₂_same]
    exact fun line _ => starredTo_star _ line

/-- Below the first line a line behind a blank and a tab, a blank line, one with an asterisk, one
without blanks, and blanks at the end. -/
def mixedLines : Text := " \tMore\n\n  *listed\n/ends/\n\t ".toList

theorem lines_frame_mixedLines :
    ('\n' ∉ "line one".toList ∧ frame "line one".toList = "/**line one*/\n".toList) ∧
      '\n' ∉ " Brief.".toList ∧
      ∃ indent starred, IndentedBy mixedLines indent ∧
        List.Forall₂ (StarredTo indent)
          (textLines [" \tMore".toList, [], "  *listed".toList, "/ends/".toList, "\t ".toList])
            starred ∧
        lines (frame (" Brief.".toList ++ '\n' :: mixedLines)) =
          (spaces (indent - 1) ++ "/**".toList ++ " Brief.".toList,
            starred ++ [spaces indent ++ "*/".toList, []]) ∧
        ∀ line ∈ starred ++ [spaces indent ++ "*/".toList], IsStarred line := by
  have hline : '\n' ∉ "line one".toList := by decide
  have hfirst : '\n' ∉ " Brief.".toList := by decide
  exact ⟨⟨hline, (lines_frame "line one".toList).1 hline⟩, hfirst,
    (lines_frame (" Brief.".toList ++ '\n' :: mixedLines)).2 _ mixedLines rfl hfirst⟩

example : frame (" Brief.".toList ++ '\n' :: mixedLines) =
    " /** Brief.\n \t* More\n  *\n  *listed\n* /ends/\n  */\n".toList := by decide

end DocComment.BlockComment
