import DocComment.HandlerTable.Standard
import DocComment.Proofs.Xml
import DocComment.Render

/-!
# What the standard table holds

An entry that is found was registered, under the tag itself or under the base of a qualified tag.
What the entries spell is checked once for the whole table.
-/

namespace DocComment

theorem baseCommand_eq_self {tag : String} (hparam : baseCommand tag ≠ "param")
    (hcode : baseCommand tag ≠ "code") : baseCommand tag = tag := by
  simp only [baseCommand] at hparam hcode ⊢
  split
  · next h => exact absurd (if_pos h) hparam
  · next h =>
    split
    · next h' => exact absurd ((if_neg h).trans (if_pos h')) hcode
    · rfl

namespace HandlerTable

/-- What is found after registering a list of entries is the last of them under the tag, or was
there before. -/
theorem get?_registerAll (table : HandlerTable) (entries : List (String × Entry)) (tag : String) :
    (table.registerAll entries).get? tag =
      ((entries.reverse.find? (·.1 = tag)).map (·.2)).or (table.get? tag) := by
  induction entries generalizing table with
  | nil => rfl
  | cons item rest ih =>
    rw [registerAll_cons, ih, get?_register, List.reverse_cons, List.find?_append]
    by_cases ht : tag = item.1
    · cases rest.reverse.find? (·.1 = tag) <;> simp [ht]
    · cases rest.reverse.find? (·.1 = tag) <;> simp [ht, Ne.symm ht]

/-- A look-up in the standard table as a search through the list it is made from. -/
theorem lookup_standard (tag : String) :
    standard.lookup tag = (standardEntries.reverse.find? (·.1 = baseCommand tag)).map (·.2) := by
  rw [lookup, standard, get?_registerAll, get?_empty, Option.or_none]

/-- The entries of the tags that trees are built with, and of links. -/
theorem lookup_named :
    standard.lookup Node.textTag = some ⟨.plainText, ""⟩ ∧
      standard.lookup Node.markerTag = some ⟨.lineBreak, ""⟩ ∧
      standard.lookup "link" = some ⟨.linkText, ""⟩ ∧
      standard.lookup "summary" = some ⟨.summary, ""⟩ := by
  simp only [lookup_standard]
  decide +kernel

@[simp] theorem lookup_textTag : standard.lookup Node.textTag = some ⟨.plainText, ""⟩ :=
  lookup_named.1

@[simp] theorem lookup_markerTag : standard.lookup Node.markerTag = some ⟨.lineBreak, ""⟩ :=
  lookup_named.2.1

@[simp] theorem lookup_link : standard.lookup "link" = some ⟨.linkText, ""⟩ :=
  lookup_named.2.2.1

@[simp] theorem lookup_summary : standard.lookup "summary" = some ⟨.summary, ""⟩ :=
  lookup_named.2.2.2

/-- Whether an entry spells what its handler writes out: the name of an element, text without markup
or a reference. Anchors, links and line breaks are known by their tags. -/
def isSpelled (tag : String) (entry : Entry) : Bool :=
  let argument := entry.argument.toList
  let name := Node.elementName { tag } entry.argument
  match entry.handler with
  | .wrap | .block => Xml.isName argument
  | .element | .crossReference => Xml.isName name
  | .literal =>
    name.all (fun c => Xml.isPlain c && c != '\n') ||
      ["lt", "gt", "amp", "quot"].any fun reference =>
        Xml.isName reference.toList && name == '&' :: reference.toList ++ [';']
  | .characterReference => argument.head? == some '&' && Xml.isName argument.tail
  | .formula => entry.argument == ""
  | .anchor => tag == "anchor"
  | .linkText => tag == "link"
  | .lineBreak => tag == Node.markerTag || tag == "n"
  | _ => true

theorem standardEntries_spelled :
    ∀ item ∈ standardEntries,
      isSpelled item.1 item.2 = true ∧ '\n' ∉ item.2.argument.toList ∧
        (item.1 = "param" → item.2.handler = .parameter) ∧
        (item.1 = "code" → item.2.handler = .block) := by
  decide +kernel

variable {tag : String} {entry : Entry}

theorem base_mem_standardEntries (h : standard.lookup tag = some entry) :
    (baseCommand tag, entry) ∈ standardEntries := by
  rw [lookup_standard, Option.map_eq_some_iff] at h
  obtain ⟨⟨found, other⟩, hfind, rfl⟩ := h
  have hfound := List.find?_some hfind
  rw [decide_eq_true_eq] at hfound
  rw [← hfound]
  exact List.mem_reverse.1 (List.mem_of_find?_eq_some hfind)

/-- Only the entries of `param` and `code` are found under other tags than their own, and they do
not write out the tag. -/
theorem isSpelled_of_lookup (h : standard.lookup tag = some entry) :
    isSpelled tag entry = true := by
  obtain ⟨hspelled, _, hparam, hcode⟩ := standardEntries_spelled _ (base_mem_standardEntries h)
  by_cases hp : baseCommand tag = "param"
  · have hh : entry.handler = .parameter := hparam hp
    simp [isSpelled, hh]
  by_cases hc : baseCommand tag = "code"
  · have hh : entry.handler = .block := hcode hc
    simpa [isSpelled, hh] using hspelled
  · rwa [baseCommand_eq_self hp hc] at hspelled

theorem handler_of_baseCommand_param (h : standard.lookup tag = some entry)
    (hbase : baseCommand tag = "param") : entry.handler = .parameter :=
  (standardEntries_spelled _ (base_mem_standardEntries h)).2.2.1 hbase

/-- No argument breaks the line. -/
theorem lineFeed_not_mem_argument (h : standard.lookup tag = some entry) :
    '\n' ∉ entry.argument.toList :=
  (standardEntries_spelled _ (base_mem_standardEntries h)).2.1

theorem tag_of_anchor (h : standard.lookup tag = some entry) (hh : entry.handler = .anchor) :
    tag = "anchor" := by
  simpa [isSpelled, hh] using isSpelled_of_lookup h

theorem tag_of_linkText (h : standard.lookup tag = some entry) (hh : entry.handler = .linkText) :
    tag = "link" := by
  simpa [isSpelled, hh] using isSpelled_of_lookup h

theorem tag_of_lineBreak (h : standard.lookup tag = some entry) (hh : entry.handler = .lineBreak) :
    tag = Node.markerTag ∨ tag = "n" := by
  simpa [isSpelled, hh] using isSpelled_of_lookup h

/-- Wraps and blocks are named by their arguments. -/
theorem isName_argument (h : standard.lookup tag = some entry)
    (hh : entry.handler = .wrap ∨ entry.handler = .block) :
    Xml.isName entry.argument.toList = true := by
  rcases hh with hh | hh
  · simpa [isSpelled, hh] using isSpelled_of_lookup h
  · simpa [isSpelled, hh] using isSpelled_of_lookup h

/-- The argument of a character reference is the reference without its semicolon. -/
theorem characterReference_argument (h : standard.lookup tag = some entry)
    (hh : entry.handler = .characterReference) :
    ∃ name, Xml.isName name = true ∧ entry.argument.toList = '&' :: name := by
  have hspelled := isSpelled_of_lookup h
  simp only [isSpelled, hh, Bool.and_eq_true, beq_iff_eq] at hspelled
  obtain ⟨rest, hrest⟩ := List.head?_eq_some_iff.1 hspelled.1
  exact ⟨rest, by simpa [hrest] using hspelled.2, hrest⟩

theorem formula_argument (h : standard.lookup tag = some entry) (hh : entry.handler = .formula) :
    entry.argument = "" := by
  simpa [isSpelled, hh] using isSpelled_of_lookup h

variable {node : Node}

@[simp] theorem elementName_mk (argument : String) :
    Node.elementName { tag := node.tag } argument = node.elementName argument := rfl

/-- Elements and cross references are named by their arguments, or else by their tags. -/
theorem isName_elementName (h : standard.lookup node.tag = some entry)
    (hh : entry.handler = .element ∨ entry.handler = .crossReference) :
    Xml.isName (node.elementName entry.argument) = true := by
  rcases hh with hh | hh
  · simpa [isSpelled, hh] using isSpelled_of_lookup h
  · simpa [isSpelled, hh] using isSpelled_of_lookup h

/-- A literal is text that stands for itself, or a reference to a character. -/
theorem literal_spelling (h : standard.lookup node.tag = some entry)
    (hh : entry.handler = .literal) :
    (∀ c ∈ node.elementName entry.argument, Xml.isPlain c = true ∧ c ≠ '\n') ∨
      ∃ name, Xml.isName name = true ∧ node.elementName entry.argument = '&' :: name ++ [';'] := by
  have hspelled := isSpelled_of_lookup h
  simp only [isSpelled, hh, Bool.or_eq_true, List.any_eq_true, Bool.and_eq_true,
    beq_iff_eq] at hspelled
  obtain hplain | ⟨reference, _, hname, he⟩ := hspelled
  · exact .inl (by simpa using hplain)
  · exact .inr ⟨reference.toList, hname, he⟩

end HandlerTable

namespace Node

open HandlerTable (standard)

/-- A text run is written as it is. -/
theorem render_text (scope : Scope) (data : String) :
    (text data).render standard scope = data.toList := by
  have hlookup : standard.lookup (text data).tag = some ⟨.plainText, ""⟩ :=
    HandlerTable.lookup_textTag
  rw [render_eq, hlookup]
  rfl

/-- A marker is written as a line break. -/
theorem render_marker (scope : Scope) : marker.render standard scope = lineBreak := by
  have hlookup : standard.lookup marker.tag = some ⟨.lineBreak, ""⟩ := HandlerTable.lookup_markerTag
  rw [render_eq, hlookup]
  rfl

end Node

end DocComment
