/-!
# Text as lists of characters

A text is a list, so that its laws are laws of lists. The module holds the run at the end of a list
whose members satisfy a test, the blanks of a line, and text as parts between separators.
-/

namespace DocComment

abbrev Text := List Char

/-- The list without its longest tail of members that satisfy `p`. -/
def dropEndWhile {α : Type} (p : α → Bool) (l : List α) : List α := (l.reverse.dropWhile p).reverse

/-- The longest tail of members that satisfy `p`. -/
def takeEndWhile {α : Type} (p : α → Bool) (l : List α) : List α := (l.reverse.takeWhile p).reverse

/-- A front whose members satisfy a test is told from what stands behind it if this begins with a
member that does not. -/
theorem append_cons_inj_of_all {α : Type} {p : α → Bool} {front front' rest rest' : List α}
    {a a' : α} (hfront : ∀ b ∈ front, p b = true) (hfront' : ∀ b ∈ front', p b = true)
    (ha : p a = false) (ha' : p a' = false) (h : front ++ a :: rest = front' ++ a' :: rest') :
    front = front' ∧ a = a' ∧ rest = rest' := by
  have hfronts := congrArg (List.takeWhile p) h
  rw [List.takeWhile_append_of_pos hfront, List.takeWhile_append_of_pos hfront',
    List.takeWhile_cons_of_neg (by simp [ha]), List.takeWhile_cons_of_neg (by simp [ha']),
    List.append_nil, List.append_nil] at hfronts
  subst hfronts
  exact ⟨rfl, List.cons.inj (List.append_cancel_left h)⟩

/-- So is a front without the member that ends it. -/
theorem append_cons_inj_of_not_mem {α : Type} [DecidableEq α] {front front' rest rest' : List α}
    {a : α} (hfront : a ∉ front) (hfront' : a ∉ front')
    (h : front ++ a :: rest = front' ++ a :: rest') :
    front = front' ∧ rest = rest' := by
  have hother : ∀ {front : List α}, a ∉ front → ∀ b ∈ front, (b != a) = true :=
    fun hfront b hb => bne_iff_ne.2 fun hba => hfront (hba ▸ hb)
  have ha : (a != a) = false := bne_self_eq_false a
  obtain ⟨hfronts, -, hrest⟩ := append_cons_inj_of_all (hother hfront) (hother hfront') ha ha h
  exact ⟨hfronts, hrest⟩

/-- The characters that indent a line. -/
def isBlank (c : Char) : Bool := c == ' ' || c == '\t'

def spaces (n : Nat) : Text := List.replicate n ' '

/-- The parts of a text between separators: the first, and one more for each separator. -/
def split (separator : Char) : Text → Text × List Text
  | [] => ([], [])
  | c :: cs =>
    let (first, rest) := split separator cs
    if c = separator then ([], first :: rest) else (c :: first, rest)

def join (separator : Char) (first : Text) (rest : List Text) : Text :=
  first ++ rest.flatMap (separator :: ·)

@[simp] theorem join_split (separator : Char) (text : Text) :
    join separator (split separator text).1 (split separator text).2 = text := by
  induction text with
  | nil => rfl
  | cons c cs ih =>
    by_cases h : c = separator
    · simpa [split, join, h] using ih
    · simpa [split, join, h] using ih

/-- No part holds the separator. -/
theorem not_mem_split (separator : Char) (text : Text) :
    separator ∉ (split separator text).1 ∧ ∀ part ∈ (split separator text).2, separator ∉ part := by
  induction text with
  | nil => simp [split]
  | cons c cs ih =>
    by_cases h : c = separator
    · simpa [split, h] using ih
    · simpa [split, h, Ne.symm h] using ih

theorem join_cons (separator : Char) (first part : Text) (rest : List Text) :
    join separator first (part :: rest) = first ++ separator :: join separator part rest := by
  simp [join]

theorem split_append {separator : Char} {front : Text} (h : separator ∉ front) (text : Text) :
    split separator (front ++ text) =
      (front ++ (split separator text).1, (split separator text).2) := by
  induction front with
  | nil => rfl
  | cons c front ih =>
    rw [List.mem_cons, not_or] at h
    rw [List.cons_append, split, ih h.2]
    simp only [if_neg (Ne.symm h.1)]
    rfl

/-- Parts without the separator are told apart again. -/
theorem split_join {separator : Char} {first : Text} {rest : List Text} (hfirst : separator ∉ first)
    (hrest : ∀ part ∈ rest, separator ∉ part) :
    split separator (join separator first rest) = (first, rest) := by
  induction rest generalizing first with
  | nil =>
    rw [join, split_append hfirst]
    simp [split]
  | cons part rest ih =>
    obtain ⟨hpart, hothers⟩ := List.forall_mem_cons.1 hrest
    rw [join_cons, split_append hfirst, split, ih hpart hothers]
    simp

/-- Line feeds separate lines, so a text has a first line and one more for each line feed. -/
def lines (text : Text) : Text × List Text := split '\n' text

def unlines (first : Text) (rest : List Text) : Text := join '\n' first rest

@[simp] theorem unlines_lines (text : Text) : unlines (lines text).1 (lines text).2 = text :=
  join_split '\n' text

theorem unlines_cons (first line : Text) (rest : List Text) :
    unlines first (line :: rest) = first ++ '\n' :: unlines line rest :=
  join_cons '\n' first line rest

theorem lines_unlines {first : Text} {rest : List Text} (hfirst : '\n' ∉ first)
    (hrest : ∀ line ∈ rest, '\n' ∉ line) : lines (unlines first rest) = (first, rest) :=
  split_join hfirst hrest

/-- Long lines are kept as they are: the breaks of the source read better than automatic ones. -/
def reflow (_indent : Nat) (line : Text) : Text := line

@[simp] theorem reflow_eq (indent : Nat) (line : Text) : reflow indent line = line := rfl

end DocComment
