import DocComment.Node.Drawing
import DocComment.Proofs.Everywhere
import DocComment.Proofs.Quotation
import DocComment.Proofs.Sections

/-!
# Trees read off their drawings

A drawing has a line for each node, and the line gives the level, the name and the data of the node:
the connector stands behind two columns for each level above it, a name ends at the quotation mark
of the data, and quoted data can be read back. In the order of a walk from the root the levels alone
determine who is whose child. So two trees with one drawing differ at most in their leaf flags.
-/

namespace DocComment.Node

section Preorder

mutual

/-- The nodes of a tree in the order of a walk from the root, each with its level. -/
def preorder (level : Nat) : Node → List (Nat × Node)
  | ⟨tag, data, children, isLeaf⟩ =>
    (level, ⟨tag, data, children, isLeaf⟩) :: preorderEach (level + 1) children

def preorderEach (level : Nat) : List Node → List (Nat × Node)
  | [] => []
  | node :: rest => preorder level node ++ preorderEach level rest

end

mutual

/-- The tree with all leaf flags cleared. -/
def unflag : Node → Node
  | ⟨tag, data, children, _⟩ => ⟨tag, data, unflagEach children, false⟩

def unflagEach : List Node → List Node
  | [] => []
  | node :: rest => unflag node :: unflagEach rest

end

theorem preorder_eq (level : Nat) (node : Node) :
    preorder level node = (level, node) :: preorderEach (level + 1) node.children := by
  cases node
  rfl

theorem unflag_eq (node : Node) :
    unflag node = ⟨node.tag, node.data, unflagEach node.children, false⟩ := by
  cases node
  rfl

theorem preorderEach_eq_flatMap (level : Nat) (nodes : List Node) :
    preorderEach level nodes = nodes.flatMap (preorder level) := by
  induction nodes with
  | nil => rfl
  | cons node rest ih => rw [preorderEach, ih, List.flatMap_cons]

theorem unflagEach_eq_map (nodes : List Node) : unflagEach nodes = nodes.map unflag := by
  induction nodes with
  | nil => rfl
  | cons node rest ih => rw [unflagEach, ih, List.map_cons]

theorem mem_preorderEach_iff {level : Nat} {nodes : List Node} {entry : Nat × Node} :
    entry ∈ preorderEach level nodes ↔ ∃ node ∈ nodes, entry ∈ preorder level node := by
  rw [preorderEach_eq_flatMap, List.mem_flatMap]

theorem le_of_mem_preorder {level : Nat} {node : Node} {entry : Nat × Node}
    (h : entry ∈ preorder level node) : level ≤ entry.1 := by
  induction node using Node.induction generalizing level with
  | _ node ih =>
    rw [preorder_eq, List.mem_cons, mem_preorderEach_iff] at h
    obtain rfl | ⟨child, hchild, hentry⟩ := h
    · exact Nat.le_refl _
    · exact Nat.le_of_succ_le (ih child hchild hentry)

/-- What holds everywhere in a tree holds of each node in the order. -/
theorem Everywhere.of_mem_preorder {p : Node → Prop} {level : Nat} {node : Node}
    {entry : Nat × Node} (h : Everywhere p node) (hentry : entry ∈ preorder level node) :
    p entry.2 := by
  induction h generalizing level with
  | intro holds inside ih =>
    rw [preorder_eq, List.mem_cons, mem_preorderEach_iff] at hentry
    obtain rfl | ⟨child, hchild, hentry⟩ := hentry
    · exact holds
    · exact ih child hchild hentry

/-- What a line tells of a node. -/
def shown (entry : Nat × Node) : Nat × String × String := (entry.1, entry.2.tag, entry.2.data)

/-- What stands behind the nodes below one at this level begins no deeper than the node itself. -/
def Above (level : Nat) (rest : List (Nat × String × String)) : Prop :=
  ∀ entry ∈ rest.head?, entry.1 ≤ level

theorem above_preorderEach {level : Nat} {rest : List (Nat × String × String)}
    (h : Above level rest) (nodes : List Node) :
    Above (level + 1) ((preorderEach (level + 1) nodes).map shown ++ rest) := by
  intro entry hentry
  cases nodes with
  | nil => exact Nat.le_succ_of_le (h entry hentry)
  | cons node nodes =>
    rw [preorderEach, preorder_eq, List.cons_append, List.map_cons, List.cons_append,
      List.head?_cons] at hentry
    rw [← Option.mem_some.1 hentry]
    exact Nat.le_refl _

theorem not_above_preorderEach_cons (level : Nat) (node : Node) (nodes : List Node)
    (rest : List (Nat × String × String)) :
    ¬ Above level ((preorderEach (level + 1) (node :: nodes)).map shown ++ rest) := by
  intro h
  rw [preorderEach, preorder_eq, List.cons_append, List.map_cons, List.cons_append] at h
  exact absurd (h _ rfl) (Nat.not_succ_le_self level)

mutual

/-- A tree is determined by the levels, names and data of its nodes in order, in front of anything
that is no part of it. -/
theorem unflag_eq_of_preorder {level : Nat} {rest rest' : List (Nat × String × String)}
    (hrest : Above level rest) (hrest' : Above level rest') : (node other : Node) →
    (preorder level node).map shown ++ rest = (preorder level other).map shown ++ rest' →
      unflag node = unflag other ∧ rest = rest'
  | ⟨tag, data, children, isLeaf⟩, ⟨tag', data', children', isLeaf'⟩, h => by
    rw [preorder, preorder, List.map_cons, List.map_cons, List.cons_append, List.cons_append,
      List.cons.injEq, shown, shown, Prod.mk.injEq, Prod.mk.injEq] at h
    obtain ⟨⟨-, rfl, rfl⟩, hbelow⟩ := h
    obtain ⟨hchildren, hrests⟩ :=
      unflagEach_eq_of_preorderEach hrest hrest' children children' hbelow
    exact ⟨by rw [unflag, unflag, hchildren], hrests⟩

theorem unflagEach_eq_of_preorderEach {level : Nat} {rest rest' : List (Nat × String × String)}
    (hrest : Above level rest) (hrest' : Above level rest') : (nodes others : List Node) →
    (preorderEach (level + 1) nodes).map shown ++ rest =
        (preorderEach (level + 1) others).map shown ++ rest' →
      unflagEach nodes = unflagEach others ∧ rest = rest'
  | [], [], h => ⟨rfl, h⟩
  -- a further sibling would stand deeper than what comes behind the parent
  | [], other :: others, h => by
    subst h
    exact absurd hrest (not_above_preorderEach_cons level other others rest')
  | node :: nodes, [], h => by
    subst h
    exact absurd hrest' (not_above_preorderEach_cons level node nodes rest)
  | node :: nodes, other :: others, h => by
    rw [preorderEach, preorderEach, List.map_append, List.map_append, List.append_assoc,
      List.append_assoc] at h
    obtain ⟨hfirst, hothers⟩ := unflag_eq_of_preorder (above_preorderEach hrest nodes)
      (above_preorderEach hrest' others) node other h
    obtain ⟨hnodes, hrests⟩ := unflagEach_eq_of_preorderEach hrest hrest' nodes others hothers
    exact ⟨by rw [unflagEach, unflagEach, hfirst, hnodes], hrests⟩

end

end Preorder

section Lines

variable {unprintable : Char → Bool}

/-- A name that a line feed does not break and that ends before the first quotation mark. -/
structure HasPlainName (node : Node) : Prop where
  lineFeed_not_mem : '\n' ∉ node.tag.toList
  quote_not_mem : '"' ∉ node.tag.toList

instance : DecidablePred HasPlainName := fun node =>
  decidable_of_iff ('\n' ∉ node.tag.toList ∧ '"' ∉ node.tag.toList)
    ⟨fun h => ⟨h.1, h.2⟩, fun h => ⟨h.1, h.2⟩⟩

theorem quote_mem_label_iff {node : Node} (h : '"' ∉ node.tag.toList) :
    '"' ∈ label unprintable node ↔ node.data.isEmpty = false := by
  rw [label]
  split
  · next hdata => simp [h, hdata]
  · next hdata => simp [quote, hdata]

/-- The name and the data of a node are read off its label. -/
theorem tag_data_eq_of_label_eq {node other : Node} (hnode : '"' ∉ node.tag.toList)
    (hother : '"' ∉ other.tag.toList) (h : label unprintable node = label unprintable other) :
    node.tag = other.tag ∧ node.data = other.data := by
  have hempty : node.data.isEmpty = false ↔ other.data.isEmpty = false := by
    rw [← quote_mem_label_iff hnode, h, quote_mem_label_iff hother]
  rw [label, label] at h
  cases hdata : node.data.isEmpty with
  | true =>
    have hdata' : other.data.isEmpty = true := by simpa [hdata] using hempty
    rw [if_pos hdata, if_pos hdata'] at h
    rw [String.isEmpty_iff] at hdata hdata'
    exact ⟨String.toList_inj.1 h, hdata.trans hdata'.symm⟩
  | false =>
    have hdata' : other.data.isEmpty = false := hempty.1 hdata
    have hname : '"' ∉ node.tag.toList ++ [' '] := by simpa using hnode
    have hname' : '"' ∉ other.tag.toList ++ [' '] := by simpa using hother
    rw [hdata, hdata', if_neg Bool.false_ne_true, if_neg Bool.false_ne_true,
      List.append_cons node.tag.toList, List.append_cons other.tag.toList] at h
    obtain ⟨htag, hquoted⟩ := append_quote_inj hname hname' h
    exact ⟨String.toList_inj.1 (List.append_cancel_right htag), String.toList_inj.1 hquoted⟩

theorem lineFeed_not_mem_label {node : Node} (h : '\n' ∉ node.tag.toList) :
    '\n' ∉ label unprintable node := by
  rw [label]
  split
  · exact h
  · simp [h, lineFeed_not_mem_quote]

/-- The columns that can stand before a connector. -/
def isRule (c : Char) : Bool := c == ' ' || c == '│'

/-- What stands before the connectors of the children of a node at this level. -/
structure IsMargin (level : Nat) (margin : Text) : Prop where
  length_eq : margin.length = 2 * level
  columns : ∀ c ∈ margin, isRule c = true

theorem isMargin_nil : IsMargin 0 [] := ⟨rfl, by simp⟩

theorem IsMargin.append_stem {level : Nat} {margin : Text} (h : IsMargin level margin)
    (isLast : Bool) :
    IsMargin (level + 1) (margin ++ stem isLast) := by
  have hstem : (stem isLast).length = 2 ∧ ∀ c ∈ stem isLast, isRule c = true := by
    cases isLast <;> simp [stem, isRule]
  refine ⟨?_, List.forall_mem_append.2 ⟨h.columns, hstem.2⟩⟩
  rw [List.length_append, h.length_eq, hstem.1]
  rfl

/-- A connector begins with a character that stands in no margin. -/
theorem exists_connector_eq (isLast : Bool) :
    ∃ c, isRule c = false ∧ connector isLast = [c, '─'] := by
  cases isLast
  · exact ⟨'├', rfl, rfl⟩
  · exact ⟨'└', rfl, rfl⟩

/-- The level is read off a line, for the margin ends at the connector. -/
theorem IsMargin.level_eq {level level' : Nat} {margin margin' text text' : Text}
    {isLast isLast' : Bool} (h : IsMargin level margin) (h' : IsMargin level' margin')
    (hline : margin ++ connector isLast ++ text = margin' ++ connector isLast' ++ text') :
    level = level' ∧ text = text' := by
  obtain ⟨c, hc, hconnector⟩ := exists_connector_eq isLast
  obtain ⟨c', hc', hconnector'⟩ := exists_connector_eq isLast'
  rw [hconnector, hconnector', List.append_assoc, List.append_assoc] at hline
  obtain ⟨hmargins, -, hrest⟩ := append_cons_inj_of_all h.columns h'.columns hc hc' hline
  have hlength := h.length_eq
  rw [hmargins, h'.length_eq] at hlength
  exact ⟨by omega, (List.cons.inj hrest).2⟩

variable (unprintable) in
/-- The line of a node at its level. -/
inductive ShownAs : Nat × Node → Text → Prop
  | root (node : Node) : ShownAs (0, node) (label unprintable node)
  /-- Below the root the connector stands behind two columns for each level between. -/
  | below {level : Nat} {margin : Text} (isLast : Bool) (node : Node) (h : IsMargin level margin) :
      ShownAs (level + 1, node) (margin ++ connector isLast ++ ' ' :: label unprintable node)

theorem eq_label_of_shownAs {node : Node} {line : Text} (h : ShownAs unprintable (0, node) line) :
    line = label unprintable node := by
  cases h
  rfl

theorem ShownAs.lineFeed_not_mem {entry : Nat × Node} {line : Text}
    (h : ShownAs unprintable entry line) (hname : '\n' ∉ entry.2.tag.toList) : '\n' ∉ line := by
  have hlabel : '\n' ∉ label unprintable entry.2 := lineFeed_not_mem_label hname
  cases h with
  | root node => exact hlabel
  | below isLast node h =>
    have hmargin : '\n' ∉ _ := fun hm => absurd (h.columns _ hm) (by decide)
    have hconnector : '\n' ∉ connector isLast := by cases isLast <;> decide
    simp [hmargin, hconnector, hlabel]

/-- A line below the root tells the level, the name and the data. The name of the root can begin
like a connector, so its own line is told by its place only. -/
theorem shown_eq_of_shownAs {entry entry' : Nat × Node} {line : Text} (hlevel : 0 < entry.1)
    (hlevel' : 0 < entry'.1) (hname : HasPlainName entry.2) (hname' : HasPlainName entry'.2)
    (h : ShownAs unprintable entry line) (h' : ShownAs unprintable entry' line) :
    shown entry = shown entry' := by
  generalize hline : line = line' at h'
  cases h with
  | root node => cases hlevel
  | below isLast node hmargin =>
    cases h' with
    | root node' => cases hlevel'
    | below isLast' node' hmargin' =>
      obtain ⟨rfl, htext⟩ := hmargin.level_eq hmargin' hline
      obtain ⟨htag, hdata⟩ := tag_data_eq_of_label_eq hname.quote_not_mem hname'.quote_not_mem
        (List.cons.inj htext).2
      rw [shown, shown, htag, hdata]

mutual

/-- The lines of a node below the root and of all nodes below it. -/
theorem exists_lines_drawBelow {level : Nat} {margin : Text} (hmargin : IsMargin level margin)
    (isLast : Bool) : (node : Node) → ∃ shownLines,
      drawBelow unprintable margin isLast node = closedLines shownLines ∧
        List.Forall₂ (ShownAs unprintable) (preorder (level + 1) node) shownLines
  | ⟨tag, data, children, isLeaf⟩ => by
    obtain ⟨below, hbelow, hshown⟩ := exists_lines_drawEach (hmargin.append_stem isLast) children
    refine ⟨_ :: below, ?_, .cons (.below isLast ⟨tag, data, children, isLeaf⟩ hmargin) hshown⟩
    rw [drawBelow, hbelow, closedLines_cons]

theorem exists_lines_drawEach {level : Nat} {margin : Text} (hmargin : IsMargin level margin) :
    (nodes : List Node) → ∃ shownLines,
      drawEach unprintable margin nodes = closedLines shownLines ∧
        List.Forall₂ (ShownAs unprintable) (preorderEach (level + 1) nodes) shownLines
  | [] => ⟨[], rfl, .nil⟩
  | node :: rest => by
    obtain ⟨first, hfirst, hshown⟩ := exists_lines_drawBelow hmargin rest.isEmpty node
    obtain ⟨others, hothers, hshowns⟩ := exists_lines_drawEach hmargin rest
    refine ⟨first ++ others, ?_, List.rel_append hshown hshowns⟩
    rw [drawEach, hfirst, hothers, closedLines, closedLines, closedLines, List.flatMap_append]

end

theorem map_shown_eq_of_forall₂ {entries entries' : List (Nat × Node)} {shownLines : List Text}
    (hentries : ∀ entry ∈ entries, 0 < entry.1 ∧ HasPlainName entry.2)
    (hentries' : ∀ entry ∈ entries', 0 < entry.1 ∧ HasPlainName entry.2)
    (h : List.Forall₂ (ShownAs unprintable) entries shownLines)
    (h' : List.Forall₂ (ShownAs unprintable) entries' shownLines) :
    entries.map shown = entries'.map shown := by
  induction h generalizing entries' with
  | nil =>
    cases h'
    rfl
  | cons hline _ ih =>
    cases h' with
    | cons hline' hrest' =>
      obtain ⟨⟨hlevel, hname⟩, hothers⟩ := List.forall_mem_cons.1 hentries
      obtain ⟨⟨hlevel', hname'⟩, hothers'⟩ := List.forall_mem_cons.1 hentries'
      rw [List.map_cons, List.map_cons,
        shown_eq_of_shownAs hlevel hlevel' hname hname' hline hline', ih hothers hothers' hrest']

variable (unprintable) in
/-- A drawing has a line for each node of the tree, in order. -/
theorem exists_lines_drawWith (root : Node) :
    ∃ shownLines, drawWith unprintable root = closedLines shownLines ∧
      List.Forall₂ (ShownAs unprintable) (preorder 0 root) shownLines := by
  obtain ⟨below, hbelow, hshown⟩ := exists_lines_drawEach isMargin_nil root.children
  refine ⟨label unprintable root :: below, ?_, ?_⟩
  · rw [drawWith, hbelow, closedLines_cons]
  · rw [preorder_eq]
    exact .cons (.root root) hshown

theorem lineFeed_not_mem_of_forall₂ {entries : List (Nat × Node)} {shownLines : List Text}
    (hnames : ∀ entry ∈ entries, HasPlainName entry.2)
    (h : List.Forall₂ (ShownAs unprintable) entries shownLines) :
    ∀ line ∈ shownLines, '\n' ∉ line := by
  induction h with
  | nil => simp
  | cons hline _ ih =>
    obtain ⟨hname, hothers⟩ := List.forall_mem_cons.1 hnames
    exact List.forall_mem_cons.2 ⟨hline.lineFeed_not_mem hname.lineFeed_not_mem, ih hothers⟩

end Lines

section Flags

variable (unprintable : Char → Bool)

mutual

/-- Leaf flags are not drawn. -/
theorem drawBelow_unflag (margin : Text) (isLast : Bool) : (node : Node) →
    drawBelow unprintable margin isLast (unflag node) = drawBelow unprintable margin isLast node
  | ⟨tag, data, children, isLeaf⟩ => by
    rw [unflag, drawBelow, drawBelow, drawEach_unflagEach]
    rfl

theorem drawEach_unflagEach (margin : Text) : (nodes : List Node) →
    drawEach unprintable margin (unflagEach nodes) = drawEach unprintable margin nodes
  | [] => rfl
  | node :: rest => by
    have hempty : (unflagEach rest).isEmpty = rest.isEmpty := by simp [unflagEach_eq_map]
    rw [unflagEach, drawEach, drawEach, hempty, drawBelow_unflag, drawEach_unflagEach]

end

theorem drawWith_unflag (root : Node) :
    drawWith unprintable (unflag root) = drawWith unprintable root := by
  rw [unflag_eq, drawWith, drawEach_unflagEach]
  rfl

end Flags

section Unambiguous

variable {unprintable : Char → Bool} {root other : Node}

theorem plain_of_mem_preorderEach (h : Everywhere HasPlainName root) :
    ∀ entry ∈ preorderEach 1 root.children, 0 < entry.1 ∧ HasPlainName entry.2 := by
  intro entry hentry
  obtain ⟨child, hchild, hentry⟩ := mem_preorderEach_iff.1 hentry
  exact ⟨le_of_mem_preorder hentry, (h.inside child hchild).of_mem_preorder hentry⟩

/-- The lines of a drawing tell the level, the name and the data of each node. -/
theorem map_shown_eq_of_lines (hroot : Everywhere HasPlainName root)
    (hother : Everywhere HasPlainName other) {shownLines : List Text}
    (h : List.Forall₂ (ShownAs unprintable) (preorder 0 root) shownLines)
    (h' : List.Forall₂ (ShownAs unprintable) (preorder 0 other) shownLines) :
    (preorder 0 root).map shown = (preorder 0 other).map shown := by
  rw [preorder_eq] at h h' ⊢
  rw [preorder_eq]
  cases h with
  | cons hfirst hbelow =>
    cases h' with
    | cons hfirst' hbelow' =>
      have hlabel := (eq_label_of_shownAs hfirst).symm.trans (eq_label_of_shownAs hfirst')
      obtain ⟨htag, hdata⟩ :=
        tag_data_eq_of_label_eq hroot.holds.quote_not_mem hother.holds.quote_not_mem hlabel
      have hrest := map_shown_eq_of_forall₂ (plain_of_mem_preorderEach hroot)
        (plain_of_mem_preorderEach hother) hbelow hbelow'
      rw [List.map_cons, List.map_cons, hrest, shown, shown, htag, hdata]

/-- Two trees with plain names that have one drawing differ at most in their leaf flags. -/
theorem unflag_eq_of_drawWith_eq (hroot : Everywhere HasPlainName root)
    (hother : Everywhere HasPlainName other)
    (h : drawWith unprintable root = drawWith unprintable other) : unflag root = unflag other := by
  obtain ⟨shownLines, hlines, hshown⟩ := exists_lines_drawWith unprintable root
  obtain ⟨shownLines', hlines', hshown'⟩ := exists_lines_drawWith unprintable other
  have hsame : shownLines = shownLines' := by
    refine closedLines_inj (lineFeed_not_mem_of_forall₂ (fun entry => hroot.of_mem_preorder) hshown)
      (lineFeed_not_mem_of_forall₂ (fun entry => hother.of_mem_preorder) hshown') ?_
    rw [← hlines, ← hlines', h]
  subst hsame
  have hend : Above 0 [] := by simp [Above]
  refine (unflag_eq_of_preorder hend hend root other ?_).1
  rw [map_shown_eq_of_lines hroot hother hshown hshown']

/-- Two trees with plain names have one drawing only if they are equal but for their leaf flags,
whichever characters are shown by their code. A drawing has a line for each node, in the order of a
walk from the root, and a connector stands behind two columns for each level between the node and
the root. -/
theorem draw_eq_iff (hroot : Everywhere HasPlainName root)
    (hother : Everywhere HasPlainName other) :
    (draw root = draw other ↔ unflag root = unflag other) ∧
      ∀ unprintable,
        (drawWith unprintable root = drawWith unprintable other ↔ unflag root = unflag other) ∧
        ∃ shownLines, drawWith unprintable root = closedLines shownLines ∧
          (∀ line ∈ shownLines, '\n' ∉ line) ∧
          List.Forall₂ (ShownAs unprintable) (preorder 0 root) shownLines := by
  have hdrawn : ∀ unprintable,
      drawWith unprintable root = drawWith unprintable other ↔ unflag root = unflag other := by
    refine fun unprintable => ⟨unflag_eq_of_drawWith_eq hroot hother, fun h => ?_⟩
    rw [← drawWith_unflag, h, drawWith_unflag]
  refine ⟨?_, fun unprintable => ⟨hdrawn unprintable, ?_⟩⟩
  · rw [draw, draw, String.ofList_inj, hdrawn]
  · obtain ⟨shownLines, hlines, hshown⟩ := exists_lines_drawWith unprintable root
    have hbroken := lineFeed_not_mem_of_forall₂ (fun entry => hroot.of_mem_preorder) hshown
    exact ⟨shownLines, hlines, hbroken, hshown⟩

/-- A tree with a name that begins like a line of its own, and with data of all kinds. -/
def deepTree : Node :=
  { tag := "root", children := [
    { tag := "└─ b", data := "say \"a\\b\"\n\t", children := [{ tag := "│ c", data := "\u200b" }] },
    { tag := " ", isLeaf := true }] }

theorem draw_eq_iff_deepTree :
    Everywhere HasPlainName deepTree ∧ Everywhere HasPlainName (unflag deepTree) ∧
      deepTree ≠ unflag deepTree ∧ draw deepTree = draw (unflag deepTree) ∧
      ∀ unprintable, ∃ shownLines, drawWith unprintable deepTree = closedLines shownLines ∧
        (∀ line ∈ shownLines, '\n' ∉ line) ∧
        List.Forall₂ (ShownAs unprintable) (preorder 0 deepTree) shownLines := by
  have hplain : Everywhere HasPlainName deepTree := by decide
  have hplain' : Everywhere HasPlainName (unflag deepTree) := by decide
  obtain ⟨hdraw, hdrawn⟩ := draw_eq_iff hplain hplain'
  exact ⟨hplain, hplain', by decide, hdraw.2 rfl, fun unprintable => (hdrawn unprintable).2⟩

/-- Names with line feeds or quotation marks can look like other trees. -/
example :
    draw { tag := "a\n└─ b" } = draw { tag := "a", children := [{ tag := "b" }] } ∧
      draw { tag := "a \"b\"" } = draw { tag := "a", data := "b" } := by
  decide +kernel

end Unambiguous

end DocComment.Node
