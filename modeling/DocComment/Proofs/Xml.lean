import DocComment.Proofs.ListEnds

/-!
# Content of XML elements

A fragment is read from the left as characters, references and elements. Start and end tags of an
element carry the same name around content of its own, so elements are nested.
-/

namespace DocComment.Xml

/-- A letter, and letters and digits behind it. -/
def isName : Text → Bool
  | [] => false
  | c :: rest => c.isAlpha && rest.all Char.isAlphanum

theorem isAlphanum_of_isName {name : Text} (h : isName name = true) {c : Char} (hc : c ∈ name) :
    c.isAlphanum = true := by
  cases name with
  | nil => simp at hc
  | cons first rest =>
    rw [isName, Bool.and_eq_true] at h
    rcases List.mem_cons.1 hc with rfl | hc
    · simp [Char.isAlphanum, h.1]
    · exact List.all_eq_true.1 h.2 c hc

/-- A character that stands for itself between tags. -/
def isPlain (c : Char) : Bool := c != '<' && c != '>' && c != '&' && c != '"'

/-- Text between the quotes of an attribute. -/
inductive AttributeValue : Text → Prop
  | nil : AttributeValue []
  | char {c : Char} {rest : Text} : c ≠ '<' → c ≠ '"' → c ≠ '&' → AttributeValue rest →
      AttributeValue (c :: rest)
  | reference {name rest : Text} : isName name = true → AttributeValue rest →
      AttributeValue ('&' :: name ++ ';' :: rest)

/-- One attribute, with the blank before it. -/
inductive Attribute : Text → Prop
  | quoted {name value : Text} : isName name = true → AttributeValue value →
      Attribute (' ' :: name ++ '=' :: '"' :: value ++ ['"'])

/-- Well-formed content. -/
inductive Content : Text → Prop
  | nil : Content []
  | char {c : Char} {rest : Text} : isPlain c = true → Content rest → Content (c :: rest)
  | reference {name rest : Text} : isName name = true → Content rest →
      Content ('&' :: name ++ ';' :: rest)
  | emptyElement {name attrs rest : Text} : isName name = true → Attribute attrs →
      Content rest → Content ('<' :: name ++ attrs ++ '/' :: '>' :: rest)
  | element {name attrs body rest : Text} : isName name = true →
      attrs = [] ∨ Attribute attrs → Content body → Content rest →
      Content ('<' :: name ++ attrs ++ '>' :: body ++ '<' :: '/' :: name ++ '>' :: rest)

theorem AttributeValue.of_plain {text : Text} (h : ∀ c ∈ text, isPlain c = true) :
    AttributeValue text := by
  induction text with
  | nil => exact .nil
  | cons c rest ih =>
    have hc := h c List.mem_cons_self
    simp only [isPlain, Bool.and_eq_true, bne_iff_ne] at hc
    obtain ⟨⟨⟨hlt, _⟩, hamp⟩, hquote⟩ := hc
    exact .char hlt hquote hamp (ih fun d hd => h d (List.mem_cons_of_mem _ hd))

namespace Content

theorem of_plain {text : Text} (h : ∀ c ∈ text, isPlain c = true) : Content text := by
  induction text with
  | nil => exact .nil
  | cons c rest ih =>
    exact .char (h c List.mem_cons_self) (ih fun d hd => h d (List.mem_cons_of_mem _ hd))

/-- Fragments stand side by side. -/
theorem append {a b : Text} (ha : Content a) (hb : Content b) : Content (a ++ b) := by
  induction ha with
  | nil => exact hb
  | char hc _ ih => exact .char hc ih
  | reference hn _ ih => simpa using Content.reference hn ih
  | emptyElement hn hat _ ih => simpa using Content.emptyElement hn hat ih
  | element hn hat hbody _ _ ih => simpa using Content.element hn hat hbody ih

/-- A tail of characters that close neither a reference nor a tag can be cut off. -/
theorem rdropWhile {p : Char → Bool} (hsemi : p ';' = false) (hgt : p '>' = false) {text : Text}
    (h : Content text) : Content (text.rdropWhile p) := by
  induction h with
  | nil => exact .nil
  | @char c rest hc hrest ih =>
    have happ := rdropWhile_append p [c] rest
    rw [List.singleton_append] at happ
    rw [happ]
    by_cases hr : rest.rdropWhile p = []
    · simp only [hr, List.isEmpty_nil, if_true]
      exact of_plain (by
        intro d hd
        have hd := (List.rdropWhile_prefix p _).subset hd
        rw [List.mem_singleton] at hd
        exact hd ▸ hc)
    · simpa [hr] using Content.char hc ih
  | reference hn _ ih =>
    rw [rdropWhile_append_cons p hsemi]
    exact .reference hn ih
  | @emptyElement name attrs rest hn hat _ ih =>
    have hcut := rdropWhile_append_cons p hgt ('<' :: name ++ attrs ++ ['/']) rest
    simp only [List.append_assoc, List.cons_append, List.nil_append] at hcut ⊢
    rw [hcut]
    simpa using Content.emptyElement hn hat ih
  | @element name attrs body rest hn hat hbody _ _ ih =>
    rw [rdropWhile_append_cons p hgt]
    exact .element hn hat hbody ih

end Content

end DocComment.Xml
