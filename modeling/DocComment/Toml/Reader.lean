import DocComment.Text

/-!
# Readers

A reader takes a value from the start of a text and leaves the rest; none means that the text starts
with no such value.
-/

namespace DocComment.Toml

abbrev Reader (α : Type) := Text → Option (α × Text)

/-- A line feed, alone or after a carriage return. -/
def newLine? : Text → Option Text
  | '\n' :: rest => some rest
  | '\r' :: '\n' :: rest => some rest
  | _ => none

/-- Reads the given characters. -/
def expect : Text → Text → Option Text
  | [], rest => some rest
  | c :: cs, d :: rest => if c = d then expect cs rest else none
  | _ :: _, [] => none

end DocComment.Toml
