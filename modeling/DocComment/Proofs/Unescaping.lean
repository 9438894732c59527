import DocComment.Proofs.StandardTable

/-!
# Running text and its references

Special characters of running text are written as references, and all else as it is. A text of this
kind is read back in one pass from left to right. Plain text that follows an ampersand cannot be
taken for the end of a reference, because the ampersand is itself the beginning of one.
-/

namespace DocComment

open HandlerTable (standard)

/-- The references that special characters are written as. -/
def references : List (Text × Char) :=
  [("&lt;".toList, '<'), ("&gt;".toList, '>'), ("&amp;".toList, '&'), ("&quot;".toList, '"')]

/-- Puts the characters for the references, from left to right. -/
def unescape : Text → Text
  | [] => []
  | '&' :: 'l' :: 't' :: ';' :: rest => '<' :: unescape rest
  | '&' :: 'g' :: 't' :: ';' :: rest => '>' :: unescape rest
  | '&' :: 'a' :: 'm' :: 'p' :: ';' :: rest => '&' :: unescape rest
  | '&' :: 'q' :: 'u' :: 'o' :: 't' :: ';' :: rest => '"' :: unescape rest
  | c :: rest => c :: unescape rest

theorem unescape_cons {c : Char} (h : c ≠ '&') (rest : Text) :
    unescape (c :: rest) = c :: unescape rest := by
  rw [unescape] <;> simp [h]

theorem unescape_reference {reference : Text × Char} (h : reference ∈ references) (rest : Text) :
    unescape (reference.1 ++ rest) = reference.2 :: unescape rest := by
  simp only [references, List.mem_cons, List.not_mem_nil, or_false] at h
  rcases h with rfl | rfl | rfl | rfl <;> rfl

/-- An ampersand begins each reference and stands nowhere else in it. -/
theorem references_begin : ∀ reference ∈ references,
    ∃ name, reference.1 = '&' :: name ∧ ∀ c ∈ name, Xml.isPlain c = true := by
  simp only [← List.all_eq_true, references, List.forall_mem_cons]
  exact ⟨⟨_, rfl, rfl⟩, ⟨_, rfl, rfl⟩, ⟨_, rfl, rfl⟩, ⟨_, rfl, rfl⟩, by simp⟩

/-- A text in which references stand for the special characters of another one. -/
inductive StandsFor : Text → Text → Prop
  | nil : StandsFor [] []
  | plain {c : Char} {text original : Text} (hc : Xml.isPlain c = true)
    (h : StandsFor text original) :
      StandsFor (c :: text) (c :: original)
  | reference {reference : Text × Char} {text original : Text} (hreference : reference ∈ references)
      (h : StandsFor text original) : StandsFor (reference.1 ++ text) (reference.2 :: original)

namespace StandsFor

variable {text original text' original' : Text}

theorem of_plain (h : ∀ c ∈ text, Xml.isPlain c = true) : StandsFor text text := by
  induction text with
  | nil => exact .nil
  | cons c text ih =>
    obtain ⟨hc, htext⟩ := List.forall_mem_cons.1 h
    exact .plain hc (ih htext)

theorem of_reference {reference : Text × Char} (h : reference ∈ references) :
    StandsFor reference.1 [reference.2] := by
  have hreference := StandsFor.reference h .nil
  rwa [List.append_nil] at hreference

theorem append (h : StandsFor text original) (h' : StandsFor text' original') :
    StandsFor (text ++ text') (original ++ original') := by
  induction h with
  | nil => exact h'
  | plain hc _ ih => exact .plain hc ih
  | reference hreference _ ih =>
    rw [List.append_assoc]
    exact .reference hreference ih

theorem ne_amp {c : Char} (h : Xml.isPlain c = true) : c ≠ '&' := by
  rintro rfl
  cases h

/-- The original is read back. -/
theorem unescape_eq (h : StandsFor text original) : unescape text = original := by
  induction h with
  | nil => rw [unescape]
  | plain hc _ ih => rw [unescape_cons (ne_amp hc), ih]
  | reference hreference _ ih => rw [unescape_reference hreference, ih]

/-- No special character but the ampersand stands for itself. -/
theorem plain_or_amp (h : StandsFor text original) :
    ∀ c ∈ text, Xml.isPlain c = true ∨ c = '&' := by
  induction h with
  | nil => simp
  | plain hc _ ih => exact List.forall_mem_cons.2 ⟨.inl hc, ih⟩
  | reference hreference _ ih =>
    obtain ⟨name, hname, hplain⟩ := references_begin _ hreference
    rw [hname, List.cons_append, List.forall_mem_cons, List.forall_mem_append]
    exact ⟨.inr rfl, fun c hc => .inl (hplain c hc), ih⟩

/-- Every ampersand begins a reference. -/
theorem reference_at_amp (h : StandsFor text original) {front rest : Text}
    (hamp : text = front ++ '&' :: rest) :
    ∃ reference ∈ references, reference.1 <+: '&' :: rest := by
  induction h generalizing front with
  | nil => simp at hamp
  | plain hc _ ih =>
    cases front with
    | nil => exact absurd (List.cons.inj hamp).1 (ne_amp hc)
    | cons d front => exact ih (List.cons.inj hamp).2
  | @reference reference text original hreference _ ih =>
    obtain ⟨name, hname, hplain⟩ := references_begin _ hreference
    cases front with
    | nil => exact ⟨reference, hreference, text, hamp⟩
    | cons d front =>
      -- behind the ampersand that begins the reference the next one can only stand behind all of it
      rw [hname, List.cons_append, List.cons_append, List.cons.injEq] at hamp
      have hbehind : ('&' :: rest) <:+ text := by
        obtain ⟨more, hfront, hrest⟩ | ⟨more, hmore, hrest⟩ := List.append_eq_append_iff.1 hamp.2
        · exact ⟨more, hrest.symm⟩
        · cases more with
          | nil => exact ⟨[], hrest⟩
          | cons e more =>
            have he : e = '&' := (List.cons.inj hrest).1.symm
            exact absurd he (ne_amp (hplain e (by simp [hmore])))
      obtain ⟨more, hmore⟩ := hbehind
      exact ih hmore.symm

end StandsFor

namespace Node

/-- The tags of escaped characters that stand for themselves. -/
def literalTags : List String := ["<", ">", "&", "\"", "$", "@", "\\", "#", "%", "~", "."]

/-- A text run without special characters, or an escaped character. -/
def IsRunningText (node : Node) : Prop :=
  node.tag = textTag ∧ (∀ c ∈ node.data.toList, Xml.isPlain c = true) ∨ node.tag ∈ literalTags

/-- What a node of running text says. -/
def said (node : Node) : Text := if node.tag = textTag then node.data.toList else node.tag.toList

/-- An escaped character is written as it is or as the reference that stands for it. -/
theorem literalTags_written : ∀ tag ∈ literalTags, tag ≠ textTag ∧
    ∃ argument ∈ ["", "&lt;", "&gt;", "&amp;", "&quot;"],
      standard.lookup tag = some ⟨.literal, argument⟩ ∧
        ((argument = "" ∧ ∀ c ∈ tag.toList, Xml.isPlain c = true) ∨
          argument ≠ "" ∧
            ∃ reference ∈ references, argument.toList = reference.1 ∧
              tag.toList = [reference.2]) := by
  simp only [HandlerTable.lookup_standard, ← List.all_eq_true]
  decide +kernel

variable {scope : Scope} {node : Node}

theorem standsFor_render (h : node.IsRunningText) :
    StandsFor (node.render standard scope) node.said := by
  rcases h with ⟨htag, hplain⟩ | hliteral
  · rw [render_eq, htag, HandlerTable.lookup_textTag, said, if_pos htag]
    exact .of_plain hplain
  · obtain ⟨htag, argument, -, hlookup, hwritten⟩ := literalTags_written _ hliteral
    rw [render_eq, hlookup, said, if_neg htag]
    rcases hwritten with ⟨rfl, hplain⟩ | ⟨hargument, reference, hreference, hwritten, hsaid⟩
    · exact .of_plain hplain
    · have hname : node.elementName argument = reference.1 := by
        rw [elementName, if_neg (by simpa using hargument), hwritten]
      have hreplaced := StandsFor.of_reference hreference
      rw [← hname, ← hsaid] at hreplaced
      exact hreplaced

theorem standsFor_renderAll {nodes : List Node} (h : ∀ node ∈ nodes, node.IsRunningText) :
    StandsFor (renderAll standard scope nodes) (nodes.flatMap said) := by
  induction nodes with
  | nil => exact .nil
  | cons node rest ih =>
    obtain ⟨hnode, hrest⟩ := List.forall_mem_cons.1 h
    exact (standsFor_render hnode).append (ih hrest)

/-- What running text is written to holds no special character but ampersands, each of which begins
a reference, and it reads back as what was said. -/
theorem unescape_runningText (scope : Scope) {nodes : List Node}
    (h : ∀ node ∈ nodes, node.IsRunningText) :
    (∀ c ∈ ['<', '>', '"'], c ∉ (root nodes).renderBody standard scope) ∧
      (∀ front rest, (root nodes).renderBody standard scope = front ++ '&' :: rest →
        ∃ reference ∈ references, reference.1 <+: '&' :: rest) ∧
      unescape ((root nodes).renderBody standard scope) = nodes.flatMap said := by
  have hwritten : StandsFor ((root nodes).renderBody standard scope) (nodes.flatMap said) :=
    standsFor_renderAll h
  have hspecial : ∀ c ∈ ['<', '>', '"'], ¬(Xml.isPlain c = true ∨ c = '&') := by
    simp [Xml.isPlain]
  exact ⟨fun c hc hmem => hspecial c hc (hwritten.plain_or_amp c hmem),
    fun front rest => hwritten.reference_at_amp, hwritten.unescape_eq⟩

/-- An ampersand before text that looks like the rest of a reference, and a character with one. -/
def nearReferences : List Node := [{ tag := "&" }, .text "lt;", { tag := "<", data := "unused" }]

theorem unescape_runningText_nearReferences :
    (∀ node ∈ nearReferences, node.IsRunningText) ∧
      unescape ((root nearReferences).renderBody standard Scope.all) = "&lt;<".toList := by
  have hnodes : ∀ node ∈ nearReferences, node.IsRunningText := by
    simp only [IsRunningText, ← List.all_eq_true]
    decide
  refine ⟨hnodes, ?_⟩
  rw [(unescape_runningText Scope.all hnodes).2.2]
  decide

end Node

end DocComment
