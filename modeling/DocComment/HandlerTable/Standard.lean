import DocComment.HandlerTable

/-!
# The standard table

The commands and markup that have a counterpart in XML documentation.
-/

namespace DocComment.HandlerTable

/-- Inline commands and the elements they become. -/
def inlineCommands : List (String × Entry) :=
  [("a", "i"), ("arg", "li"), ("b", "b"), ("c", "code"), ("cite", "i"), ("e", "i"), ("em", "i"),
    ("li", "li"), ("p", "code")].map fun (tag, element) => (tag, ⟨.wrap, element⟩)

/-- Escaped characters and their replacements; without one the character stands for itself. -/
def escapedCharacters : List (String × Entry) :=
  [("$", ""), ("@", ""), ("\\", ""), ("<", "&lt;"), (">", "&gt;"), ("&", "&amp;"), ("#", ""),
    ("%", ""), ("~", ""), ("\"", "&quot;"), (".", ""), ("::", ".")].map
    fun (tag, replacement) => (tag, ⟨.literal, replacement⟩)

/-- Sections and the elements they become; without one the element has the name of the command. -/
def sectionCommands : List (String × Entry) :=
  [("author", ""), ("authors", "author"), ("deprecated", ""), ("result", "return"),
    ("return", "returns"), ("returns", ""), ("since", ""), ("throws", ""), ("throw", "throws"),
    ("version", ""), ("note", "remarks"), ("remark", "remarks"), ("remarks", ""), ("todo", ""),
    ("warning", "remarks")].map fun (tag, element) => (tag, ⟨.element, element⟩)

def structuralCommands : List (String × Entry) :=
  [("see", ⟨.crossReference, "see"⟩), ("sa", ⟨.crossReference, "seealso"⟩),
    ("param", ⟨.parameter, ""⟩), ("ref", ⟨.anchorLink, ""⟩), ("link", ⟨.linkText, ""⟩),
    ("par", ⟨.titledParagraph, ""⟩), ("anchor", ⟨.anchor, ""⟩), ("code", ⟨.block, "code"⟩),
    ("summary", ⟨.summary, ""⟩),
    (Node.textTag, ⟨.plainText, ""⟩), (Node.markerTag, ⟨.lineBreak, ""⟩), ("n", ⟨.lineBreak, ""⟩)]

/-- Formulas are kept as they are written. -/
def formulaCommands : List (String × Entry) :=
  ["f$", "f[", "f\x7b"].map fun tag => (tag, ⟨.formula, ""⟩)

/-- Markup tags, which are written out again. -/
def rawTags : List (String × Entry) :=
  ["<a", "<b", "<blockquote", "<body", "<br", "<center", "<caption", "<code", "<dd", "<dfn", "<div",
    "<dl", "<dt", "<em", "<form", "<hr", "<h1", "<h2", "<h3", "<i", "<input", "<img", "<li",
    "<meta", "<multicol", "<ol", "<p", "<pre", "<small", "<span", "<strong", "<sub", "<sup",
    "<table", "<td", "<th", "<tr", "<tt", "<kbd", "<ul", "<var"].map fun tag =>
      (tag, ⟨.rawTag, tag⟩)

def characterReferences : List (String × Entry) :=
  ["&copy", "&trade", "&reg", "&lt", "&gt", "&amp", "&apos", "&quot", "&lsquo", "&rsquo", "&ldquo",
    "&rdquo", "&ndash", "&mdash", "&nbsp", "&times", "&minus", "&sdot", "&sim", "&le", "&ge",
    "&larr", "&rarr"].map fun name => (name, ⟨.characterReference, name⟩)

def standardEntries : List (String × Entry) :=
  inlineCommands ++ escapedCharacters ++ sectionCommands ++ structuralCommands ++ formulaCommands ++
    rawTags ++ characterReferences

def standard : HandlerTable := empty.registerAll standardEntries

end DocComment.HandlerTable
