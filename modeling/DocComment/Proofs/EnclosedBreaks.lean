import DocComment.Proofs.DanglingBreaks

/-!
# Line breaks at the end of inline elements

A wrap moves the blanks at the end of its body behind the closing tag. A line break ends in one
blank behind slashes, so only this blank is moved: a break at the end of the body is cut in two, and
all of it but the blank stays inside, as does every break before it.
-/

namespace DocComment

open HandlerTable (standard)

/-- A line break without the blank at its end. -/
def cutBreak : Text := " \n ///".toList

theorem lineBreak_eq : lineBreak = cutBreak ++ [' '] := by decide

/-- Several line breaks in a row. -/
def lineBreaks (count : Nat) : Text := (List.replicate count lineBreak).flatten

@[simp] theorem lineBreaks_zero : lineBreaks 0 = [] := rfl

theorem lineBreaks_succ (count : Nat) :
    lineBreaks (count + 1) = lineBreaks count ++ cutBreak ++ [' '] := by
  rw [lineBreaks, lineBreaks, List.replicate_succ', List.flatten_append, List.flatten_singleton,
    List.append_assoc, ← lineBreak_eq]

/-- An inline element around the first part of a body, with the second part behind it. A body that
is all blank stays inside, and one blank follows; any other is kept up to a character that is not
blank. -/
structure IsWrapped (name body kept moved text : Text) : Prop where
  parts : kept ++ moved = body
  written : text = element name [] kept ++ moved ++ if body.all isTrailing then [' '] else []
  blank : body.all isTrailing = true → kept = body
  trimmed : body.all isTrailing = false → ∀ c, kept.getLast? = some c → isTrailing c = false

/-- An inline element that leaves the line breaks at the end of its body behind it. -/
def EnclosesNoBreak (name body text : Text) : Prop :=
  ∃ kept moved, IsWrapped name body kept moved text ∧
    (body.all isTrailing = false → ¬ cutBreak <:+ kept) ∧
    ∀ count, lineBreaks count <:+ body → lineBreaks count <:+ moved

variable {name body kept moved : Text}

/-- A wrap keeps its body up to the blanks at the end, and is written with these behind it. -/
theorem isWrapped_wrapInline_of_not_blank (h : body.all isTrailing = false) :
    IsWrapped name body (body.rdropWhile isTrailing) (body.rtakeWhile isTrailing)
      (wrapInline name body) where
  parts := List.rdropWhile_append_rtakeWhile
  written := by simp [wrapInline_eq, h]
  blank hblank := by simp [h] at hblank
  trimmed _ _ hlast := not_of_getLast?_rdropWhile isTrailing hlast

theorem isWrapped_wrapInline_of_blank (h : body.all isTrailing = true) :
    IsWrapped name body body [] (wrapInline name body) where
  parts := List.append_nil body
  written := by simp [wrapInline_eq, h]
  blank _ := rfl
  trimmed hblank := by simp [h] at hblank

/-- Behind a body that ends in a slash there is one place for the closing tag, since a part moved
behind it would end in the slash. -/
theorem IsWrapped.kept_eq (h : IsWrapped name body kept moved (wrapInline name body))
    (hlast : (body.rdropWhile isTrailing).getLast? = some '/') :
    kept = body.rdropWhile isTrailing := by
  have hblank : body.all isTrailing = false := by
    rw [← isEmpty_rdropWhile]
    cases hk : body.rdropWhile isTrailing with
    | nil => simp [hk] at hlast
    | cons c rest => rfl
  have htag := getLast?_of_endsInTag (endsInTag_wrapInline name body)
  rw [h.written, hblank, if_neg (by simp), List.append_nil, rdropWhile_append] at htag
  rw [← h.parts, rdropWhile_append] at hlast ⊢
  cases hmoved : moved.rdropWhile isTrailing with
  | nil => exact (rdropWhile_eq_self_of_getLast? isTrailing (h.trimmed hblank)).symm
  | cons c rest =>
    have hslash : (c :: rest).getLast? = some '/' := by
      simpa [hmoved, List.getLast?_append] using hlast
    have hbracket : (c :: rest).getLast? = some '>' := by
      simpa [hmoved, List.getLast?_append] using htag
    simp [hslash] at hbracket

/-- Line breaks at the end of a body are kept, but for the last blank. -/
theorem rdropWhile_lineBreaks (front : Text) (count : Nat) :
    (front ++ lineBreaks (count + 1)).rdropWhile isTrailing =
      front ++ lineBreaks count ++ cutBreak := by
  have hcut : cutBreak = " \n //".toList ++ ['/'] := by decide
  rw [lineBreaks_succ, hcut]
  simp only [← List.append_assoc, List.append_assoc _ ['/'] [' '], List.singleton_append]
  rw [rdropWhile_append_cons isTrailing (by decide)]
  rfl

theorem cutBreak_suffix_of_lineBreaks {count : Nat} (h : lineBreaks (count + 1) <:+ body) :
    cutBreak <:+ body.rdropWhile isTrailing := by
  obtain ⟨front, rfl⟩ := h
  rw [rdropWhile_lineBreaks]
  exact List.suffix_append _ _

/-- No break is enclosed exactly if what the body ends in before its blanks is none. -/
theorem enclosesNoBreak_iff :
    EnclosesNoBreak name body (wrapInline name body) ↔
      ¬ cutBreak <:+ body.rdropWhile isTrailing := by
  constructor
  · rintro ⟨kept, moved, hwrapped, hkept, -⟩ hcut
    have hlast : (body.rdropWhile isTrailing).getLast? = some '/' := by
      obtain ⟨front, hfront⟩ := hcut
      rw [← hfront, List.getLast?_append]
      rfl
    have hblank : body.all isTrailing = false := by
      rw [← isEmpty_rdropWhile, List.isEmpty_eq_false_iff]
      rintro hnil
      simp [hnil] at hlast
    exact hkept hblank (hwrapped.kept_eq hlast ▸ hcut)
  · intro hcut
    have hbreaks : ∀ moved count, lineBreaks count <:+ body → lineBreaks count <:+ moved := by
      intro moved count h
      cases count with
      | zero => exact List.nil_suffix
      | succ count => exact absurd (cutBreak_suffix_of_lineBreaks h) hcut
    cases hblank : body.all isTrailing with
    | false =>
      exact ⟨_, _, isWrapped_wrapInline_of_not_blank hblank, fun _ => hcut, hbreaks _⟩
    | true =>
      exact ⟨_, _, isWrapped_wrapInline_of_blank hblank, fun h => by simp [hblank] at h, hbreaks _⟩

/-- Line breaks at the end of a body stand before the closing tag, the last one without its
blank. -/
theorem wrapInline_lineBreaks (name front : Text) (count : Nat) :
    wrapInline name (front ++ lineBreaks (count + 1)) =
      element name [] (front ++ lineBreaks count ++ cutBreak) ++ [' '] := by
  have hkept : (front ++ lineBreaks (count + 1)).all isTrailing = false := by
    rw [← isEmpty_rdropWhile, rdropWhile_lineBreaks, List.isEmpty_eq_false_iff]
    exact List.append_ne_nil_of_right_ne_nil _ (by decide)
  have hmoved : (front ++ lineBreaks (count + 1)).rtakeWhile isTrailing = [' '] := by
    have hparts := List.rdropWhile_append_rtakeWhile (p := isTrailing)
      (l := front ++ lineBreaks (count + 1))
    have hbody : front ++ lineBreaks (count + 1) =
        front ++ lineBreaks count ++ cutBreak ++ [' '] := by
      rw [lineBreaks_succ, ← List.append_assoc front, ← List.append_assoc front]
    rw [rdropWhile_lineBreaks] at hparts
    exact List.append_cancel_left (hparts.trans hbody)
  rw [wrapInline_eq, hkept, rdropWhile_lineBreaks, hmoved]
  rfl

namespace Node

variable {table : HandlerTable} {node : Node} {entry : Entry}

theorem render_of_wrap (scope : Scope) (hlookup : table.lookup node.tag = some entry)
    (hwrap : entry.handler = .wrap) (hchildren : node.children ≠ []) :
    node.render table scope = wrapInline entry.argument.toList (node.renderBody table scope) := by
  rw [render_eq, hlookup]
  simp [Entry.write, hwrap, hchildren, renderBody, renderAll, List.flatMap_def]

/-- An inline element is put around its body, with the blanks at the end behind it. It encloses no
line break exactly if the body without these blanks does not end in a cut one; so it encloses all
breaks that its body ends in, up to the last blank. -/
theorem inline_breaks_enclosed (scope : Scope) (hlookup : table.lookup node.tag = some entry)
    (hwrap : entry.handler = .wrap) (hchildren : node.children ≠ []) :
    (∃ kept moved, IsWrapped entry.argument.toList (node.renderBody table scope) kept moved
        (node.render table scope)) ∧
      (EnclosesNoBreak entry.argument.toList (node.renderBody table scope)
        (node.render table scope) ↔
        ¬ cutBreak <:+ (node.renderBody table scope).rdropWhile isTrailing) ∧
      ∀ front count, node.renderBody table scope = front ++ lineBreaks (count + 1) →
        node.render table scope =
          element entry.argument.toList [] (front ++ lineBreaks count ++ cutBreak) ++ [' '] := by
  rw [render_of_wrap scope hlookup hwrap hchildren]
  refine ⟨?_, enclosesNoBreak_iff, fun front count h => ?_⟩
  · cases hblank : (node.renderBody table scope).all isTrailing with
    | false => exact ⟨_, _, isWrapped_wrapInline_of_not_blank hblank⟩
    | true => exact ⟨_, _, isWrapped_wrapInline_of_blank hblank⟩
  · rw [h, wrapInline_lineBreaks]

/-- A line break between texts, and blanks at the end. -/
def emphasis : Node := { tag := "em", children := [.text "a", .marker, .text "b \t"] }

theorem inline_breaks_enclosed_emphasis :
    standard.lookup emphasis.tag = some ⟨.wrap, "i"⟩ ∧ emphasis.children ≠ [] ∧
      EnclosesNoBreak "i".toList (emphasis.renderBody standard Scope.all)
        (emphasis.render standard Scope.all) := by
  have hlookup : standard.lookup emphasis.tag = some ⟨.wrap, "i"⟩ := by
    rw [HandlerTable.lookup_standard]
    decide +kernel
  have hchildren : emphasis.children ≠ [] := by decide
  have hbody : emphasis.renderBody standard Scope.all = 'a' :: lineBreak ++ ['b', ' ', '\t'] := by
    rw [renderBody, if_neg (by decide), emphasis, renderAll_cons, renderAll_cons, renderAll_cons,
      render_text, render_marker, render_text]
    rfl
  have hcut : ¬ cutBreak <:+ (emphasis.renderBody standard Scope.all).rdropWhile isTrailing := by
    rw [hbody]
    decide
  exact ⟨hlookup, hchildren, (inline_breaks_enclosed Scope.all hlookup rfl hchildren).2.1.2 hcut⟩

/-- The command that breaks a line. -/
def lineBreakCommand : Node := { tag := "n" }

/-- Bold text with a line break at its end. -/
def brokenBold : Node := { tag := "b", children := [.text "a", lineBreakCommand] }

/-- The break stays before the closing tag. -/
theorem not_forall_enclosesNoBreak :
    ¬ ∀ (table : HandlerTable) (scope : Scope) (node : Node) (entry : Entry),
      table.lookup node.tag = some entry → entry.handler = .wrap → node.children ≠ [] →
      EnclosesNoBreak entry.argument.toList (node.renderBody table scope)
        (node.render table scope) := by
  intro h
  obtain ⟨hbold, hcommand⟩ : standard.lookup brokenBold.tag = some ⟨.wrap, "b"⟩ ∧
      standard.lookup lineBreakCommand.tag = some ⟨.lineBreak, ""⟩ := by
    simp only [HandlerTable.lookup_standard]
    decide +kernel
  have hchildren : brokenBold.children ≠ [] := by decide
  have hbreak : lineBreakCommand.render standard Scope.all = lineBreak := by
    rw [render_eq, hcommand]
    rfl
  have hbody : brokenBold.renderBody standard Scope.all = 'a' :: lineBreaks 1 := by
    rw [renderBody, if_neg (by decide), brokenBold, renderAll_cons, renderAll_cons, render_text,
      hbreak]
    rfl
  have hencloses := h standard Scope.all brokenBold ⟨.wrap, "b"⟩ hbold rfl hchildren
  rw [render_of_wrap Scope.all hbold rfl hchildren, enclosesNoBreak_iff, hbody] at hencloses
  exact hencloses (cutBreak_suffix_of_lineBreaks (List.suffix_cons 'a' _))

end Node

end DocComment
