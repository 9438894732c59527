import DocComment.Proofs.Preparation
import DocComment.Proofs.Writing

/-!
# The words of a comment

The prose of a tree is its text without titles, names of parameters and markup. A comment shows it
in tags, on lines of its own and with blanks moved, so comment and prose are compared without tags,
blanks and slashes: no word is lost, added or moved.
-/

namespace DocComment

open HandlerTable (standard)

/-- Text without its tags, where a tag is what stands from an opening to the next closing bracket;
the flag tells whether the text begins inside a tag. -/
def withoutTags (inTag : Bool) : Text → Text
  | [] => []
  | c :: rest =>
    if inTag then withoutTags (c != '>') rest
    else if c = '<' then withoutTags true rest
    else c :: withoutTags false rest

/-- Whether a text that begins inside a tag, or outside, ends inside one. -/
def inTagAfter (inTag : Bool) : Text → Bool
  | [] => inTag
  | c :: rest => inTagAfter (if inTag then c != '>' else c == '<') rest

/-- Characters that fill a comment out to lines. -/
def isFiller (c : Char) : Bool := c == ' ' || c == '\t' || c == '\n' || c == '/'

/-- A text without its tags and without filling. -/
def words (text : Text) : Text := (withoutTags false text).filter (!isFiller ·)

def isBracket (c : Char) : Bool := c == '<' || c == '>'

theorem withoutTags_append (inTag : Bool) (a b : Text) :
    withoutTags inTag (a ++ b) = withoutTags inTag a ++ withoutTags (inTagAfter inTag a) b := by
  induction a generalizing inTag with
  | nil => rfl
  | cons c rest ih =>
    cases inTag with
    | true => simpa [withoutTags, inTagAfter] using ih (c != '>')
    | false =>
      by_cases hc : c = '<'
      · simpa [withoutTags, inTagAfter, hc] using ih true
      · have hopen : (c == '<') = false := beq_eq_false_iff_ne.2 hc
        simpa [withoutTags, inTagAfter, hc, hopen] using ih false

theorem inTagAfter_append (inTag : Bool) (a b : Text) :
    inTagAfter inTag (a ++ b) = inTagAfter (inTagAfter inTag a) b := by
  induction a generalizing inTag with
  | nil => rfl
  | cons c rest ih => exact ih _

/-- Without brackets a text ends where it begins, inside a tag or outside. -/
theorem inTagAfter_of_plain {text : Text} (h : ∀ c ∈ text, isBracket c = false) (inTag : Bool) :
    inTagAfter inTag text = inTag := by
  induction text with
  | nil => rfl
  | cons c rest ih =>
    have hc := h c List.mem_cons_self
    simp only [isBracket, Bool.or_eq_false_iff, beq_eq_false_iff_ne] at hc
    have hstep : (if inTag then c != '>' else c == '<') = inTag := by
      cases inTag <;> simp [hc]
    rw [inTagAfter, hstep]
    exact ih fun d hd => h d (List.mem_cons_of_mem _ hd)

theorem withoutTags_of_plain {text : Text} (h : ∀ c ∈ text, isBracket c = false) :
    withoutTags false text = text := by
  induction text with
  | nil => rfl
  | cons c rest ih =>
    have hc := h c List.mem_cons_self
    simp only [isBracket, Bool.or_eq_false_iff, beq_eq_false_iff_ne] at hc
    simpa [withoutTags, hc] using ih fun d hd => h d (List.mem_cons_of_mem _ hd)

/-- A tag is left out as a whole. -/
theorem withoutTags_tag {inner : Text} (h : '>' ∉ inner) :
    withoutTags true (inner ++ ['>']) = [] ∧ inTagAfter true (inner ++ ['>']) = false := by
  induction inner with
  | nil => exact ⟨rfl, rfl⟩
  | cons c rest ih =>
    rw [List.mem_cons, not_or] at h
    have hc : (c != '>') = true := bne_iff_ne.2 (Ne.symm h.1)
    simpa [withoutTags, inTagAfter, hc] using ih h.2

theorem words_append {a : Text} (ha : inTagAfter false a = false) (b : Text) :
    words (a ++ b) = words a ++ words b := by
  rw [words, withoutTags_append, ha, List.filter_append, words, words]

theorem isBracket_of_isFiller {c : Char} (h : isFiller c = true) : isBracket c = false := by
  simp only [isFiller, Bool.or_eq_true, beq_iff_eq] at h
  rcases h with ((rfl | rfl) | rfl) | rfl <;> decide

theorem words_of_filler {text : Text} (h : ∀ c ∈ text, isFiller c = true) : words text = [] := by
  rw [words, withoutTags_of_plain fun c hc => isBracket_of_isFiller (h c hc)]
  simpa using h

/-- A text with whole tags only shows a prose if their words are the same. -/
structure Shows (text prose : Text) : Prop where
  whole : inTagAfter false text = false
  words_eq : words text = prose.filter (!isFiller ·)
  plain : ∀ c ∈ prose, isBracket c = false

namespace Shows

variable {a b name attributes body text prose more : Text}

theorem of_plain (h : ∀ c ∈ text, isBracket c = false) : Shows text text where
  whole := inTagAfter_of_plain h false
  words_eq := by rw [words, withoutTags_of_plain h]
  plain := h

theorem nil : Shows [] [] := of_plain (by simp)

theorem append (ha : Shows a prose) (hb : Shows b more) : Shows (a ++ b) (prose ++ more) where
  whole := by rw [inTagAfter_append, ha.whole, hb.whole]
  words_eq := by rw [words_append ha.whole, ha.words_eq, hb.words_eq, List.filter_append]
  plain := by
    intro c hc
    rcases List.mem_append.1 hc with hc | hc
    · exact ha.plain c hc
    · exact hb.plain c hc

theorem of_filler (h : ∀ c ∈ text, isFiller c = true) : Shows text [] where
  whole := inTagAfter_of_plain (fun c hc => isBracket_of_isFiller (h c hc)) false
  words_eq := words_of_filler h
  plain := by simp

/-- Filling at the end shows nothing. -/
theorem of_append_filler (h : Shows (a ++ b) prose) (hb : ∀ c ∈ b, isFiller c = true) :
    Shows a prose := by
  have hplain : ∀ c ∈ b, isBracket c = false := fun c hc => isBracket_of_isFiller (hb c hc)
  have hwhole := h.whole
  rw [inTagAfter_append, inTagAfter_of_plain hplain] at hwhole
  have hwords := h.words_eq
  rw [words_append hwhole, words_of_filler hb, List.append_nil] at hwords
  exact ⟨hwhole, hwords, h.plain⟩

theorem tag (h : '>' ∉ text) : Shows ('<' :: text ++ ['>']) [] where
  whole := (withoutTags_tag h).2
  words_eq := by
    have hnone : withoutTags false ('<' :: text ++ ['>']) = [] := (withoutTags_tag h).1
    rw [words, hnone]
  plain := by simp

/-- An element shows what its body shows. -/
theorem element (hn : '>' ∉ name) (ha : '>' ∉ attributes) (hb : Shows body prose) :
    Shows (element name attributes body) prose := by
  have hopen : Shows ('<' :: (name ++ attributes) ++ ['>']) [] :=
    tag fun hm => (List.mem_append.1 hm).elim hn ha
  have hclose : Shows ('<' :: ('/' :: name) ++ ['>']) [] := tag (by simpa using hn)
  have h := (hopen.append hb).append hclose
  simpa [DocComment.element] using h

/-- Moving blanks out of a wrap moves no word. -/
theorem wrapInline (hn : '>' ∉ name) (hb : Shows body prose) :
    Shows (wrapInline name body) prose := by
  have htail : ∀ c ∈ body.rtakeWhile isTrailing, isFiller c = true := by
    intro c hc
    have htrailing := List.mem_rtakeWhile_imp hc
    simp only [isTrailing, Bool.or_eq_true, beq_iff_eq] at htrailing
    rcases htrailing with (rfl | rfl) | rfl <;> decide
  rw [wrapInline_eq]
  by_cases hk : body.all isTrailing
  · simp only [hk, if_true]
    have hblank : Shows [' '] [] := of_filler (List.all_eq_true.1 (by decide))
    simpa using (element hn (by simp) hb).append hblank
  · simp only [hk]
    rw [← List.rdropWhile_append_rtakeWhile (p := isTrailing) (l := body)] at hb
    have hkept := hb.of_append_filler htail
    simpa using (element hn (by simp) hkept).append (of_filler htail)

theorem lineBreak : Shows lineBreak [] := of_filler (List.all_eq_true.1 (by decide))

theorem summary (hb : Shows body prose) : Shows (summaryStart ++ body ++ summaryEnd) prose := by
  have hbreak : Shows "\n /// ".toList [] := of_filler (List.all_eq_true.1 (by decide))
  have hstart : Shows summaryStart [] := by
    have he : summaryStart =
        " /// ".toList ++ ('<' :: "summary".toList ++ ['>']) ++ "\n /// ".toList := by decide
    have hblank : Shows " /// ".toList [] := of_filler (List.all_eq_true.1 (by decide))
    have hopen : Shows ('<' :: "summary".toList ++ ['>']) [] := tag (by decide)
    rw [he]
    simpa using (hblank.append hopen).append hbreak
  have hend : Shows summaryEnd [] := by
    have he : summaryEnd = "\n /// ".toList ++ ('<' :: "/summary".toList ++ ['>']) := by decide
    have hclose : Shows ('<' :: "/summary".toList ++ ['>']) [] := tag (by decide)
    rw [he]
    simpa using hbreak.append hclose
  simpa using (hstart.append hb).append hend

end Shows

theorem bracket_not_mem_of_isName {name : Text} (h : Xml.isName name = true) : '>' ∉ name :=
  fun hm => absurd (Xml.isAlphanum_of_isName h hm) (by decide)

/-- What a node adds to the prose, given what each of its children adds. -/
def Entry.prose (scope : Scope) (entry : Entry) (node : Node) (pieces : List Text) : Text :=
  match entry.handler with
  | .plainText => node.data.toList
  | .wrap | .element | .block | .summary => pieces.flatten
  | .titledParagraph => pieces.tail.flatten
  | .parameter => if node.subject?.any scope then pieces.tail.flatten else []
  | _ => []

namespace Node

mutual

/-- The prose of a node. -/
def prose (table : HandlerTable) (scope : Scope) : Node → Text
  | ⟨tag, data, children, isLeaf⟩ =>
    match table.lookup tag with
    | none => []
    | some entry => entry.prose scope ⟨tag, data, children, isLeaf⟩ (proseEach table scope children)

/-- The prose of each of several nodes. -/
def proseEach (table : HandlerTable) (scope : Scope) : List Node → List Text
  | [] => []
  | node :: nodes => prose table scope node :: proseEach table scope nodes

end

section Equations

variable (table : HandlerTable) (scope : Scope)

@[simp] theorem proseEach_eq_map (nodes : List Node) :
    proseEach table scope nodes = nodes.map (prose table scope) := by
  induction nodes with
  | nil => rfl
  | cons node nodes ih => rw [proseEach, ih, List.map_cons]

/-- The prose of a list of nodes. -/
def proseAll (nodes : List Node) : Text := nodes.flatMap (prose table scope)

@[simp] theorem proseAll_nil : proseAll table scope [] = [] := rfl

@[simp] theorem proseAll_cons (node : Node) (nodes : List Node) :
    proseAll table scope (node :: nodes) = prose table scope node ++ proseAll table scope nodes :=
  rfl

@[simp] theorem proseAll_append (nodes more : List Node) :
    proseAll table scope (nodes ++ more) =
      proseAll table scope nodes ++ proseAll table scope more :=
  List.flatMap_append

theorem prose_eq (node : Node) :
    prose table scope node =
      match table.lookup node.tag with
      | none => []
      | some entry => entry.prose scope node (node.children.map (prose table scope)) := by
  obtain ⟨tag, data, children, isLeaf⟩ := node
  rw [prose, proseEach_eq_map]

end Equations

/-- Handlers of nodes that are prose or markup around it. -/
def holdsProse : Handler → Bool
  | .plainText | .lineBreak | .wrap | .element | .block | .summary | .titledParagraph
    | .parameter =>
    true
  | _ => false

/-- A node of prose or of markup around it, with no children in a leaf and no brackets in its
data. -/
def IsProse (node : Node) : Prop :=
  (standard.lookup node.tag).any (holdsProse ·.handler) = true ∧
    (node.isLeaf = true → node.children = []) ∧
    ∀ c ∈ node.data.toList, isBracket c = false

instance : DecidablePred IsProse := fun node =>
  decidable_of_iff
    (((HandlerTable.standardEntries.reverse.find? (·.1 = baseCommand node.tag)).map (·.2)).any
        (holdsProse ·.handler) = true ∧
      (node.isLeaf = true → node.children = []) ∧ node.data.toList.all (!isBracket ·) = true)
    (by simp only [IsProse, HandlerTable.lookup_standard, List.all_eq_true, Bool.not_eq_true'])

variable {scope : Scope} {node : Node} {entry : Entry}

theorem shows_flatten {nodes : List Node}
    (h : ∀ node ∈ nodes, Shows (node.render standard scope) (node.prose standard scope)) :
    Shows (renderAll standard scope nodes) (proseAll standard scope nodes) := by
  induction nodes with
  | nil => exact .nil
  | cons node rest ih =>
    exact (h node List.mem_cons_self).append
      (ih fun other ho => h other (List.mem_cons_of_mem _ ho))

/-- One node: its handler shows the prose that its children show. -/
theorem write_shows (hl : standard.lookup node.tag = some entry)
    (hprose : holdsProse entry.handler = true) (hleaf : node.isLeaf = true → node.children = [])
    (hdata : ∀ c ∈ node.data.toList, isBracket c = false)
    (hchild : ∀ child ∈ node.children, ∀ c ∈ child.data.toList, isBracket c = false)
    (ih : ∀ child ∈ node.children,
      Shows (child.render standard scope) (child.prose standard scope)) :
    Shows (entry.write scope node (node.children.map (render standard scope)))
      (entry.prose scope node (node.children.map (prose standard scope))) := by
  have hbody : Shows
      (if node.isLeaf then [] else (node.children.map (render standard scope)).flatten)
      (node.children.map (prose standard scope)).flatten := by
    split
    · next h =>
      rw [hleaf h]
      exact .nil
    · exact shows_flatten ih
  have hrest : Shows (node.children.map (render standard scope)).tail.flatten
      (node.children.map (prose standard scope)).tail.flatten := by
    rw [← List.map_tail, ← List.map_tail]
    exact shows_flatten fun child hm => ih child (List.mem_of_mem_tail hm)
  have hattr : ∀ (key : Text), ∀ child ∈ node.children, '>' ∉ key →
      '>' ∉ attr key child.data.toList := by
    intro key child hm hkey hbracket
    have hvalue : '>' ∉ child.data.toList :=
      fun h => by simpa [isBracket] using hchild child hm '>' h
    simp [attr, hkey, hvalue] at hbracket
  cases hh : entry.handler with
  | wrap =>
    simp only [Entry.write, Entry.prose, hh]
    cases hc : node.children with
    | nil => exact .nil
    | cons first rest =>
      rw [hc] at hbody
      exact .wrapInline
        (bracket_not_mem_of_isName (HandlerTable.isName_argument hl (.inl hh))) hbody
  | element =>
    simp only [Entry.write, Entry.prose, hh, reflow_eq]
    exact .element (bracket_not_mem_of_isName (HandlerTable.isName_elementName hl (.inl hh)))
      (by simp) hbody
  | block =>
    simp only [Entry.write, Entry.prose, hh, reflow_eq]
    exact .element (bracket_not_mem_of_isName (HandlerTable.isName_argument hl (.inr hh)))
      (by simp) hbody
  | summary =>
    simp only [Entry.write, Entry.prose, hh, reflow_eq]
    exact .summary hbody
  | plainText =>
    simp only [Entry.write, Entry.prose, hh]
    exact .of_plain hdata
  | lineBreak =>
    simp only [Entry.write, Entry.prose, hh]
    exact .lineBreak
  | titledParagraph =>
    simp only [Entry.write, Entry.prose, hh, reflow_eq]
    cases hc : node.children with
    | nil => exact .nil
    | cons title rest =>
      rw [hc] at hrest
      exact .element (by decide) (hattr _ title (by simp [hc]) (by decide)) hrest
  | parameter =>
    simp only [Entry.write, Entry.prose, hh, reflow_eq]
    split
    · next hc =>
      have hsubject : node.subject?.any scope = false := by rw [subject?, hc]; rfl
      rw [hsubject]
      exact .nil
    · next name rest hc =>
      have hsubject : node.subject?.any scope = scope name.data := by rw [subject?, hc]; rfl
      rw [hsubject]
      split
      · exact .element (by decide) (hattr _ name (by simp [hc]) (by decide)) hrest
      · exact .nil
  | _ => simp [holdsProse, hh] at hprose

/-- A tree of prose and markup shows its prose. -/
theorem render_shows (h : node.Everywhere IsProse) :
    Shows (node.render standard scope) (node.prose standard scope) := by
  induction h with
  | @intro node holds inside ih =>
    obtain ⟨hprose, hleaf, hdata⟩ := holds
    rw [render_eq, prose_eq]
    cases hl : standard.lookup node.tag with
    | none => exact .nil
    | some entry =>
      rw [hl] at hprose
      exact write_shows hl hprose hleaf hdata
        (fun child hm => (inside child hm).holds.2.2) ih

end Node

end DocComment
