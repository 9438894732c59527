/-!
# Ways to write a node

An entry pairs a way to write a node with its argument: the name of an element, a replacement text,
or nothing.
-/

namespace DocComment

inductive Handler where
  /-- The children in an inline element, with the blank end of its body moved behind it. -/
  | wrap
  /-- The argument, or the tag itself. -/
  | literal
  /-- The children in an element named by the argument, or else by the tag. -/
  | element
  /-- An empty element that refers to the data of an only child. -/
  | crossReference
  /-- A start or end tag taken over with its attributes. -/
  | rawTag
  /-- A character reference. -/
  | characterReference
  | lineBreak
  | plainText
  /-- The children in the summary element, on lines of their own. -/
  | summary
  /-- The data of the children, untranslated. -/
  | formula
  /-- The children in an element named by the argument. -/
  | block
  /-- A paragraph whose first child is its title. -/
  | titledParagraph
  /-- The description of the parameter named by the first child. -/
  | parameter
  /-- A link to an anchor of the same document. -/
  | anchorLink
  /-- The text of a link, without its target. -/
  | linkText
  /-- The target of anchor links. -/
  | anchor
  deriving DecidableEq, Repr, Inhabited

structure Entry where
  handler : Handler
  argument : String := ""
  deriving DecidableEq, Repr, Inhabited

end DocComment
