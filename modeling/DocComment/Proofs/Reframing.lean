import DocComment.Proofs.CommentFrame
import Mathlib.Data.List.TakeWhile

/-!
# Framing what has been framed

A frame keeps the first line, gives each line below it an asterisk and leaves out a blank one at the
end. Lines that have asterisks get no others, and the first of them is indented as far as the text
was taken to be. So the inside of a frame is framed to the same block.
-/

namespace DocComment.BlockComment

/-- A line whose first character that is not blank is an asterisk. -/
def IsStarred (line : Text) : Prop := (line.dropWhile isBlank).head? = some '*'

/-- The lines below the first, without a blank one at the end. -/
def textLines (rest : List Text) : List Text :=
  if rest.getLast?.any (·.all isBlank) then rest.dropLast else rest

theorem textLines_concat (front : List Text) (last : Text) :
    textLines (front ++ [last]) = if last.all isBlank then front else front ++ [last] := by
  simp [textLines]

theorem textLines_cons (line : Text) (rest : List Text) :
    textLines (line :: rest) =
      if rest.isEmpty && line.all isBlank then [] else line :: textLines rest := by
  cases rest with
  | nil => simp [textLines]
  | cons next rest =>
    rw [textLines, textLines, List.getLast?_cons_cons, List.dropLast_cons_cons]
    split <;> rfl

theorem mem_of_mem_textLines {rest : List Text} {line : Text} (h : line ∈ textLines rest) :
    line ∈ rest := by
  rw [textLines] at h
  split at h
  · exact (List.dropLast_sublist rest).mem h
  · exact h

section Star

variable (indent : Nat) {line : Text}

theorem isBlank_spaces {n : Nat} : ∀ c ∈ spaces n, isBlank c = true := by simp [spaces, isBlank]

theorem lineFeed_not_mem_spaces (n : Nat) : '\n' ∉ spaces n := by simp [spaces]

theorem isBlank_takeWhile (line : Text) : ∀ c ∈ line.takeWhile isBlank, isBlank c = true :=
  List.all_eq_true.1 List.all_takeWhile

/-- A starred line stays as it is. -/
theorem star_of_isStarred (h : IsStarred line) : star indent line = line := by
  obtain ⟨body, hbody⟩ := List.head?_eq_some_iff.1 h
  rw [star, hbody]
  rfl

theorem exists_of_isStarred (h : IsStarred line) :
    ∃ blanks body, (∀ c ∈ blanks, isBlank c = true) ∧ line = blanks ++ '*' :: body := by
  obtain ⟨body, hbody⟩ := List.head?_eq_some_iff.1 h
  refine ⟨line.takeWhile isBlank, body, isBlank_takeWhile line, ?_⟩
  rw [← hbody, List.takeWhile_append_dropWhile]

theorem isStarred_append (blanks body : Text) (h : ∀ c ∈ blanks, isBlank c = true) :
    IsStarred (blanks ++ '*' :: body) := by
  rw [IsStarred, List.dropWhile_append_of_pos h]
  rfl

theorem isStarred_star (line : Text) : IsStarred (star indent line) := by
  rw [star]
  split
  · exact isStarred_append _ [] isBlank_spaces
  · next h => rw [IsStarred, h, List.head?_cons]
  · exact isStarred_append _ _ (isBlank_takeWhile line)

theorem takeWhile_append_asterisk {blanks : Text} (h : ∀ c ∈ blanks, isBlank c = true)
    (body : Text) :
    (blanks ++ '*' :: body).takeWhile isBlank = blanks := by
  rw [List.takeWhile_append_of_pos h, List.takeWhile_cons_of_neg (by decide), List.append_nil]

/-- The blanks before the asterisk: those of the line, or as many as asked for if it is blank. -/
theorem length_takeWhile_star (line : Text) :
    ((star indent line).takeWhile isBlank).length =
      if line.all isBlank then indent else (line.takeWhile isBlank).length := by
  have hall : line.all isBlank = true ↔ line.dropWhile isBlank = [] := by
    rw [List.all_eq_true, List.dropWhile_eq_nil_iff]
  rw [star]
  split
  · next h =>
    rw [if_pos (hall.2 h), takeWhile_append_asterisk isBlank_spaces]
    exact List.length_replicate
  · next h => rw [if_neg (by simp [hall, h])]
  · next hnil _ =>
    rw [if_neg (by simpa [hall] using hnil), takeWhile_append_asterisk (isBlank_takeWhile line)]

theorem lineFeed_not_mem_star (h : '\n' ∉ line) : '\n' ∉ star indent line := by
  have hblanks : '\n' ∉ line.takeWhile isBlank := fun hm => h ((List.takeWhile_prefix _).mem hm)
  have hbody : '\n' ∉ line.dropWhile isBlank := fun hm => h ((List.dropWhile_suffix _).mem hm)
  rw [star]
  split
  · simp [spaces]
  · exact h
  · simpa using ⟨hblanks, hbody⟩

end Star

section Content

variable (indent : Nat)

theorem starLines_concat (front : List Text) (last : Text) :
    starLines indent (front ++ [last]) =
      front.map (star indent) ++ [if last.all isBlank then last else star indent last] := by
  induction front with
  | nil => simp [starLines]; split <;> rfl
  | cons line front ih =>
    have hmore : (front ++ [last]).isEmpty = false := by simp
    rw [List.cons_append, starLines, hmore, Bool.false_and, if_neg (by simp), ih]
    rfl

theorem unlines_concat (first : Text) (front : List Text) (last : Text) :
    unlines first (front ++ [last]) = unlines first front ++ '\n' :: last := by
  simp [unlines, join]

/-- A blank end behind a line feed is left out. -/
theorem onNewLine_of_blank (text : Text) {last : Text} (h : last.all isBlank = true) :
    onNewLine (text ++ '\n' :: last) = text ++ ['\n'] := by
  have hkept : (text ++ '\n' :: last).rdropWhile isBlank = text ++ ['\n'] := by
    rw [rdropWhile_append_cons isBlank (by decide),
      List.rdropWhile_eq_nil_iff.2 (List.all_eq_true.1 h)]
  rw [onNewLine_eq, hkept, if_pos List.getLast?_concat]

theorem onNewLine_of_not_mem {text : Text} (h : '\n' ∉ text) : onNewLine text = text ++ ['\n'] := by
  rw [onNewLine_eq,
    if_neg fun hlast => h ((List.rdropWhile_prefix _ _).subset (List.mem_of_getLast? hlast))]

/-- A line that holds an asterisk is ended. -/
theorem onNewLine_of_isStarred (text : Text) {last : Text} (h : IsStarred last)
    (hline : '\n' ∉ last) :
    onNewLine (text ++ '\n' :: last) = text ++ '\n' :: last ++ ['\n'] := by
  obtain ⟨blanks, body, -, rfl⟩ := exists_of_isStarred h
  have hbody : '\n' ∉ body := fun hm => hline (by simp [hm])
  rw [← List.cons_append, ← List.append_assoc, onNewLine_append_cons (by decide) (by decide),
    onNewLine_of_not_mem hbody]
  simp

/-- The content of a frame is the first line and the starred lines below it, each with its line
feed. -/
theorem onNewLine_starLines (first : Text) {rest : List Text} (hne : rest ≠ [])
    (hrest : ∀ line ∈ rest, '\n' ∉ line) :
    onNewLine (unlines first (starLines indent rest)) =
      unlines first ((textLines rest).map (star indent) ++ [[]]) := by
  obtain ⟨front, last, rfl⟩ := (List.eq_nil_or_concat rest).resolve_left hne
  rw [List.concat_eq_append] at *
  rw [starLines_concat, textLines_concat, unlines_concat, unlines_concat]
  split
  · next hblank => rw [onNewLine_of_blank _ hblank]
  · have hline : '\n' ∉ star indent last := lineFeed_not_mem_star indent (hrest last (by simp))
    rw [onNewLine_of_isStarred _ (isStarred_star indent last) hline, List.map_append,
      List.map_singleton, unlines_concat]

end Content

section Indentation

/-- What stands below the first line. -/
theorem tail_dropWhile_lineFeed {first : Text} (hfirst : '\n' ∉ first) (below : Text) :
    ((first ++ '\n' :: below).dropWhile (· != '\n')).tail = below := by
  have hfront : ∀ c ∈ first, (c != '\n') = true :=
    fun c hc => bne_iff_ne.2 fun he => hfirst (he ▸ hc)
  rw [List.dropWhile_append_of_pos hfront]
  rfl

/-- The indentation is that of the second line, unless this one is blank and the last. -/
theorem indentation_unlines {first : Text} (hfirst : '\n' ∉ first) (line : Text)
    (rest : List Text) :
    indentation (unlines first (line :: rest)) =
      if rest.isEmpty && line.all isBlank then 0 else (line.takeWhile isBlank).length := by
  have hbelow : ((unlines first (line :: rest)).dropWhile (· != '\n')).tail =
      unlines line rest := by
    rw [unlines_cons, tail_dropWhile_lineFeed hfirst]
  cases rest with
  | nil =>
    have hnil : unlines line [] = line := by simp [unlines, join]
    rw [indentation, hbelow, hnil, List.isEmpty_nil, Bool.true_and]
  | cons next rest =>
    have hfeed : (unlines line (next :: rest)).all isBlank = false := by
      simp [unlines_cons, isBlank]
    have hblanks : (unlines line (next :: rest)).takeWhile isBlank = line.takeWhile isBlank := by
      rw [unlines_cons, List.takeWhile_append, List.takeWhile_cons_of_neg (by decide)]
      split
      · next hl => rw [List.append_nil, (List.takeWhile_prefix isBlank).eq_of_length hl]
      · rfl
    simp only [indentation, hbelow, hfeed, hblanks, List.isEmpty_cons, Bool.false_and]

theorem indentation_of_not_mem {doc : Text} (h : '\n' ∉ doc) : indentation doc = 0 := by
  have hdoc : ∀ c ∈ doc, (c != '\n') = true := fun c hc => bne_iff_ne.2 fun he => h (he ▸ hc)
  rw [indentation, List.dropWhile_eq_nil_iff.2 hdoc]
  rfl

end Indentation

section Unframe

/-- A block without the blanks and the opening in front and without the closing at the end. -/
def unframe (block : Text) : Text :=
  let opened := (block.dropWhile (· == ' ')).drop "/**".length
  opened.take (opened.length - "*/\n".length)

theorem unframe_frame (doc : Text) :
    unframe (frame doc) = content doc ++ spaces (indentation doc) := by
  have hspaces : ∀ c ∈ spaces (indentation doc - 1), (c == ' ') = true := by simp [spaces]
  have hopened : ((frame doc).dropWhile (· == ' ')).drop "/**".length =
      content doc ++ spaces (indentation doc) ++ "*/\n".toList := by
    rw [frame_eq, List.append_assoc, List.append_assoc, List.dropWhile_append_of_pos hspaces,
      ← List.append_assoc (content doc)]
    rfl
  simp only [unframe, hopened]
  exact List.take_left' (by simp; rfl)

variable {first : Text} {rest : List Text} (hfirst : '\n' ∉ first)
  (hrest : ∀ line ∈ rest, '\n' ∉ line)
include hfirst hrest

theorem content_unlines (hne : rest ≠ []) :
    content (unlines first rest) =
      unlines first ((textLines rest).map (star (indentation (unlines first rest))) ++ [[]]) := by
  obtain ⟨line, below, rfl⟩ := List.exists_cons_of_ne_nil hne
  rw [content, lines_unlines hfirst hrest]
  exact onNewLine_starLines _ first hne hrest

/-- A text whose lines below the first are starred, but for blanks at the end, is its own
content. -/
theorem content_of_isStarred (hstarred : ∀ line ∈ rest, IsStarred line) (indent : Nat) :
    content (unlines first (rest ++ [spaces indent])) = unlines first (rest ++ [[]]) := by
  have hlines : ∀ line ∈ rest ++ [spaces indent], '\n' ∉ line := by
    intro line hl
    rcases List.mem_append.1 hl with hl | hl
    · exact hrest line hl
    · exact List.mem_singleton.1 hl ▸ lineFeed_not_mem_spaces indent
  have hblank : (spaces indent).all isBlank = true := List.all_eq_true.2 isBlank_spaces
  rw [content_unlines hfirst hlines (by simp), textLines_concat, if_pos hblank]
  have hkept := List.map_congr_left fun line hl =>
    star_of_isStarred (indentation (unlines first (rest ++ [spaces indent]))) (hstarred line hl)
  rw [hkept, List.map_id']

omit hrest in
/-- With its lines starred and blanks of its own indentation at the end, a text is indented as
before. -/
theorem indentation_starred (hne : rest ≠ []) :
    indentation (unlines first ((textLines rest).map (star (indentation (unlines first rest))) ++
        [spaces (indentation (unlines first rest))])) = indentation (unlines first rest) := by
  obtain ⟨line, below, rfl⟩ := List.exists_cons_of_ne_nil hne
  have hindent := indentation_unlines hfirst line below
  rw [textLines_cons]
  split at hindent
  · next hclosing =>
    rw [if_pos hclosing, hindent, List.map_nil, List.nil_append, indentation_unlines hfirst]
    rfl
  · next hclosing =>
    rw [if_neg hclosing, List.map_cons, List.cons_append, indentation_unlines hfirst,
      if_neg (by simp), length_takeWhile_star]
    split
    · rfl
    · exact hindent.symm

/-- The inside of a frame with several lines is framed to the same block. -/
theorem frame_content_of_lines (hne : rest ≠ []) :
    frame (content (unlines first rest) ++ spaces (indentation (unlines first rest))) =
      frame (unlines first rest) := by
  let indent := indentation (unlines first rest)
  let starred := (textLines rest).map (star indent)
  have hcontent : content (unlines first rest) = unlines first (starred ++ [[]]) :=
    content_unlines hfirst hrest hne
  have hlines : ∀ line ∈ starred, '\n' ∉ line := by
    intro line hl
    obtain ⟨other, ho, rfl⟩ := List.mem_map.1 hl
    exact lineFeed_not_mem_star indent (hrest other (mem_of_mem_textLines ho))
  have hstarred : ∀ line ∈ starred, IsStarred line := by
    intro line hl
    obtain ⟨other, -, rfl⟩ := List.mem_map.1 hl
    exact isStarred_star indent other
  have hinside : content (unlines first rest) ++ spaces indent =
      unlines first (starred ++ [spaces indent]) := by
    rw [hcontent, unlines_concat, unlines_concat, List.append_assoc, List.singleton_append]
  have hindent : indentation (unlines first (starred ++ [spaces indent])) = indent :=
    indentation_starred hfirst hne
  rw [hinside, frame_eq, frame_eq, hindent, hcontent, content_of_isStarred hfirst hlines hstarred]

end Unframe

/-- A text on one line is its own content, and has no indentation. -/
theorem content_of_not_mem {doc : Text} (h : '\n' ∉ doc) :
    content doc ++ spaces (indentation doc) = doc := by
  have hlines : lines doc = (doc, []) := by
    simpa [unlines, join] using lines_unlines h (List.forall_mem_nil _)
  rw [content, hlines, indentation_of_not_mem h]
  simp [spaces]

/-- What stands inside a frame is framed to the same block again. -/
theorem frame_unframe_frame (doc : Text) :
    (∃ indent, frame doc = spaces indent ++ "/**".toList ++ unframe (frame doc) ++ "*/\n".toList) ∧
      frame (unframe (frame doc)) = frame doc := by
  rw [unframe_frame]
  refine ⟨⟨indentation doc - 1, by rw [frame_eq]; simp only [List.append_assoc]⟩, ?_⟩
  obtain ⟨hfirst, hrest⟩ := not_mem_split '\n' doc
  have hdoc := unlines_lines doc
  rw [lines] at hdoc
  generalize split '\n' doc = parts at hfirst hrest hdoc
  obtain ⟨first, rest⟩ := parts
  subst hdoc
  cases rest with
  | nil => rw [content_of_not_mem (by simpa [unlines, join] using hfirst)]
  | cons line rest => exact frame_content_of_lines hfirst hrest (by simp)

example : unframe (frame "\n\tx\n \n".toList) = "\n\t* x\n *\n ".toList := by decide

end DocComment.BlockComment
