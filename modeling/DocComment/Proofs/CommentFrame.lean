import DocComment.BlockComment
import DocComment.Proofs.ListEnds

/-!
# Where a framed comment ends

An asterisk with a slash behind it ends the comment. The frame puts a blank or the end of the line
behind the asterisks that it gives to lines, but the first line stands right behind the opening: a
text that begins with a slash closes its comment there, and every other one where the frame does.
-/

namespace DocComment

/-- What ends a block comment. -/
def terminator : Text := "*/".toList

/-- No comment ends inside the text. -/
def IsOpen (text : Text) : Prop := ¬ terminator <:+: text

namespace IsOpen

variable {a b text : Text} {c : Char}

theorem cons_iff : IsOpen (c :: text) ↔ ¬ (c = '*' ∧ text.head? = some '/') ∧ IsOpen text := by
  have hstart : terminator <+: c :: text ↔ c = '*' ∧ text.head? = some '/' := by
    cases text <;> simp [terminator, List.cons_prefix_cons, eq_comm]
  rw [IsOpen, List.infix_cons_iff, not_or, hstart]
  rfl

theorem of_infix (h : IsOpen text) (hpart : a <:+: text) : IsOpen a :=
  fun hend => h (hend.trans hpart)

theorem of_not_mem (h : '*' ∉ text) : IsOpen text := fun hend => h (hend.mem (by decide))

def decide : (text : Text) → Decidable (IsOpen text)
  | [] => isTrue (of_not_mem (by simp))
  | _ :: text =>
    haveI := decide text
    decidable_of_iff _ cons_iff.symm

instance : DecidablePred IsOpen := decide

/-- Where two texts are joined no terminator arises, unless the first ends in its asterisk and the
second begins with its slash. -/
theorem append (ha : IsOpen a) (hb : IsOpen b)
    (hseam : ¬ (a.getLast? = some '*' ∧ b.head? = some '/')) : IsOpen (a ++ b) := by
  induction a with
  | nil => exact hb
  | cons c rest ih =>
    obtain ⟨hc, hrest⟩ := cons_iff.1 ha
    rw [List.cons_append, cons_iff]
    cases rest with
    | nil => exact ⟨by simpa using hseam, hb⟩
    | cons d rest => exact ⟨hc, ih hrest (by simpa using hseam)⟩

/-- Line feeds keep the lines of a text apart. -/
theorem unlines {first : Text} {rest : List Text} (hfirst : IsOpen first)
    (hrest : ∀ line ∈ rest, IsOpen line) : IsOpen (unlines first rest) := by
  induction rest generalizing first with
  | nil => simpa [DocComment.unlines, join] using hfirst
  | cons line rest ih =>
    have hline :=
      ih (hrest line List.mem_cons_self) fun other ho => hrest other (List.mem_cons_of_mem _ ho)
    rw [unlines_cons]
    exact hfirst.append (cons_iff.2 ⟨by simp, hline⟩) (by simp)

/-- Each line of a text is as open as the text. -/
theorem lines (h : IsOpen text) :
    IsOpen (lines text).1 ∧ ∀ line ∈ (DocComment.lines text).2, IsOpen line := by
  rw [← unlines_lines text] at h
  constructor
  · exact h.of_infix (List.prefix_append _ _).isInfix
  · intro line hl
    have hpart : '\n' :: line <:+: (DocComment.lines text).2.flatMap ('\n' :: ·) := by
      rw [List.flatMap_def]
      exact List.infix_of_mem_flatten (List.mem_map_of_mem hl)
    have hline : line <:+: (DocComment.lines text).2.flatMap ('\n' :: ·) :=
      (List.suffix_cons '\n' line).isInfix.trans hpart
    exact h.of_infix (hline.trans (List.suffix_append (DocComment.lines text).1 _).isInfix)

end IsOpen

theorem isOpen_spaces (n : Nat) : IsOpen (spaces n) := .of_not_mem (by simp [spaces])

namespace BlockComment

theorem onNewLine_eq (text : Text) :
    onNewLine text =
      if (text.rdropWhile isBlank).getLast? = some '\n' then text.rdropWhile isBlank
      else text ++ ['\n'] := rfl

theorem onNewLine_append_cons {c : Char} (hblank : isBlank c = false) (hc : c ≠ '\n') (l m : Text) :
    onNewLine (l ++ c :: m) = l ++ c :: onNewLine m := by
  have hlast : (l ++ c :: m.rdropWhile isBlank).getLast? = some '\n' ↔
      (m.rdropWhile isBlank).getLast? = some '\n' := by
    rw [List.getLast?_append, List.getLast?_cons, Option.some_or, Option.some_inj]
    cases (m.rdropWhile isBlank).getLast? with
    | none => simp [hc]
    | some last => simp
  simp only [onNewLine_eq, rdropWhile_append_cons isBlank hblank, hlast]
  split
  · rfl
  · rw [List.append_assoc, List.cons_append]

/-- What stands between the opening of the frame and the line of its end. -/
def content (doc : Text) : Text :=
  match lines doc with
  | (line, []) => line
  | (first, rest) => onNewLine (unlines first (starLines (indentation doc) rest))

/-- What the text begins with, its content begins with, unless it is blank. -/
theorem content_cons {c : Char} (hblank : isBlank c = false) (hc : c ≠ '\n') (doc : Text) :
    content (c :: doc) = c :: content doc := by
  have hindent : indentation (c :: doc) = indentation doc := by simp [indentation, hc]
  rcases hl : lines doc with ⟨first, rest⟩
  have hlines : lines (c :: doc) = (c :: first, rest) := by
    rw [lines] at hl ⊢
    simp only [split, hl, hc, if_false]
  cases rest with
  | nil => simp only [content, hl, hlines]
  | cons line rest =>
    simp only [content, hl, hlines, hindent]
    exact onNewLine_append_cons hblank hc [] _

theorem frame_eq (doc : Text) :
    frame doc = spaces (indentation doc - 1) ++ "/**".toList ++ content doc ++
      (spaces (indentation doc) ++ "*/\n".toList) := by
  have hopening : ∀ first rest,
      unlines (spaces (indentation doc - 1) ++ "/**".toList ++ first) rest =
      (spaces (indentation doc - 1) ++ ['/', '*']) ++ '*' :: unlines first rest := by
    intro first rest
    simp [unlines, join]
  rcases hl : lines doc with ⟨first, _ | ⟨line, rest⟩⟩
  · simp only [frame, content, hl]
  · simp only [frame, content, hl]
    rw [hopening, onNewLine_append_cons (by decide) (by decide)]
    simp

section Open

variable {doc line text : Text} {rest : List Text} (indent : Nat)

theorem isOpen_star (h : IsOpen line) : IsOpen (star indent line) := by
  have hblank : IsOpen (line.takeWhile isBlank) := h.of_infix (List.takeWhile_prefix _).isInfix
  have hbody : IsOpen (line.dropWhile isBlank) := h.of_infix (List.dropWhile_suffix _).isInfix
  rw [star]
  split
  · exact (isOpen_spaces indent).append
      (IsOpen.cons_iff.2 ⟨by simp, .of_not_mem (by simp)⟩) (by simp)
  · exact h
  · refine hblank.append (IsOpen.cons_iff.2 ⟨by simp, IsOpen.cons_iff.2 ⟨by simp, hbody⟩⟩) (by simp)

theorem isOpen_starLines (h : ∀ line ∈ rest, IsOpen line) :
    ∀ line ∈ starLines indent rest, IsOpen line := by
  induction rest with
  | nil => simp [starLines]
  | cons line rest ih =>
    obtain ⟨hline, hrest⟩ := List.forall_mem_cons.1 h
    rw [starLines]
    split
    · exact List.forall_mem_singleton.2 hline
    · exact List.forall_mem_cons.2 ⟨isOpen_star indent hline, ih hrest⟩

theorem isOpen_onNewLine (h : IsOpen text) : IsOpen (onNewLine text) := by
  rw [onNewLine_eq]
  split
  · exact h.of_infix (List.rdropWhile_prefix isBlank text).isInfix
  · exact h.append (.of_not_mem (by decide)) (by simp)

theorem isOpen_content (h : IsOpen doc) : IsOpen (content doc) := by
  obtain ⟨hfirst, hrest⟩ := h.lines
  rcases hl : lines doc with ⟨first, _ | ⟨line, rest⟩⟩
  · rw [hl] at hfirst
    simp only [content, hl]
    exact hfirst
  · rw [hl] at hfirst hrest
    simp only [content, hl]
    exact isOpen_onNewLine (hfirst.unlines (isOpen_starLines _ hrest))

/-- Behind the opening no comment ends before the last slash of the frame, if the second asterisk of
the opening and the text are open together. -/
theorem isOpen_inside (h : IsOpen ('*' :: doc)) :
    IsOpen ('*' :: content doc ++ spaces indent ++ ['*']) := by
  have hcontent := isOpen_content h
  rw [content_cons (by decide) (by decide)] at hcontent
  have hend : IsOpen ['*'] := IsOpen.cons_iff.2 ⟨by simp, .of_not_mem (by simp)⟩
  refine (hcontent.append (isOpen_spaces indent) ?_).append hend (by simp)
  rintro ⟨-, hs⟩
  exact absurd (List.mem_of_head? hs) (by simp [spaces])

end Open

/-- What stands behind the opening of a block comment. -/
def inside (text : Text) : Text := (text.dropWhile (· == ' ')).drop 2

/-- A text is one block comment: behind blanks it is opened, it is ended on its last line, and the
terminator there is the first one behind the opening. -/
structure IsBlockComment (text : Text) : Prop where
  opens : ∃ indent, spaces indent ++ "/**".toList <+: text
  closes : "*/\n".toList <:+ text
  once : ∀ before after, inside text = before ++ terminator ++ after → after = ['\n']

/-- Every frame is opened and ended, whatever the text is. -/
theorem opening_prefix_frame (doc : Text) :
    spaces (indentation doc - 1) ++ "/**".toList <+: frame doc := by
  rw [frame_eq, List.append_assoc _ (content doc)]
  exact List.prefix_append _ _

theorem closing_suffix_frame (doc : Text) : "*/\n".toList <:+ frame doc := by
  rw [frame_eq, ← List.append_assoc]
  exact List.suffix_append _ _

theorem inside_frame (doc : Text) :
    inside (frame doc) = '*' :: content doc ++ spaces (indentation doc) ++ "*/\n".toList := by
  have hspaces : ∀ c ∈ spaces (indentation doc - 1), (c == ' ') = true := by simp [spaces]
  rw [inside, frame_eq, List.append_assoc, List.append_assoc, List.dropWhile_append_of_pos hspaces]
  simp

/-- Where the text before the last slash is open, only the end is a terminator. -/
theorem eq_of_terminator {text before after : Text} (h : IsOpen text)
    (he : text ++ ['/', '\n'] = before ++ terminator ++ after) : after = ['\n'] := by
  have hopen : ∀ more, text ≠ before ++ terminator ++ more := by
    rintro more rfl
    exact h ⟨before, more, rfl⟩
  rcases List.append_eq_append_iff.1 he with ⟨left, hleft, hright⟩ | ⟨right, hright, -⟩
  · rcases left with _ | ⟨c, _ | ⟨d, left⟩⟩
    · exact absurd (by simpa using hleft.symm) (hopen [])
    · exact (List.cons.inj hright).2.symm
    · -- the terminator would end in the line feed
      obtain ⟨-, rfl, hnil⟩ : '/' = c ∧ '\n' = d ∧ [] = left ++ after := by simpa using hright
      rw [(List.append_eq_nil_iff.1 hnil.symm).1] at hleft
      have hlast := congrArg List.getLast? hleft
      simp [terminator] at hlast
  · exact absurd hright (hopen right)

/-- A framed text is one block comment exactly if it does not begin with a slash. -/
theorem frame_isBlockComment_iff (doc : Text) (h : IsOpen doc) :
    IsBlockComment (frame doc) ↔ doc.head? ≠ some '/' := by
  constructor
  · intro hframe hslash
    obtain ⟨rest, rfl⟩ : ∃ rest, doc = '/' :: rest := List.head?_eq_some_iff.1 hslash
    have hearly : inside (frame ('/' :: rest)) = [] ++ terminator ++
        (content rest ++ spaces (indentation ('/' :: rest)) ++ "*/\n".toList) := by
      rw [inside_frame, content_cons (by decide) (by decide)]
      simp [terminator]
    have hlength := congrArg List.length (hframe.once _ _ hearly)
    simp at hlength
    omega
  · intro hslash
    have hopen : IsOpen ('*' :: doc) := IsOpen.cons_iff.2 ⟨fun hs => hslash hs.2, h⟩
    refine ⟨⟨_, opening_prefix_frame doc⟩, closing_suffix_frame doc, ?_⟩
    intro before after he
    apply eq_of_terminator (isOpen_inside (indentation doc) hopen)
    rw [← he, inside_frame]
    simp

/-- Slashes and asterisks at the ends of lines, around a blank line and at the end of the text. -/
def slashes : Text := " a*\n  /b*\n  *c/\n\n/* d *".toList

theorem frame_isBlockComment_slashes :
    IsOpen slashes ∧ slashes.head? ≠ some '/' ∧ IsBlockComment (frame slashes) :=
  have hopen : IsOpen slashes := by decide
  have hslash : slashes.head? ≠ some '/' := by decide
  ⟨hopen, hslash, (frame_isBlockComment_iff slashes hopen).2 hslash⟩

/-- The asterisk of the opening and a slash at the start of the text end the comment. -/
theorem not_forall_frame_isBlockComment :
    ¬ ∀ doc : Text, IsOpen doc → IsBlockComment (frame doc) := by
  intro h
  have hpath := h "/usr/lib".toList (by decide)
  have hafter := hpath.once [] "usr/lib*/\n".toList (by decide)
  exact absurd hafter (by decide)

end BlockComment

end DocComment
