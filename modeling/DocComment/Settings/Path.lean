import DocComment.Digits
import DocComment.Settings.Value
import DocComment.Text

/-!
# Paths to settings

The text of a path is a name, and then names after dots and indices in brackets.
-/

namespace DocComment.Path

def isNameChar (c : Char) : Bool := c.isAlphanum || c == '_' || c == '-' || c == ' '

/-- A name at the start of a text, and the rest. -/
def name? (text : Text) : Option (Step × Text) :=
  let (name, rest) := text.span isNameChar
  if name.isEmpty then none else some (.key (String.ofList name), rest)

/-- The number of a sign and digits, within 64 bits. -/
def integer? (negative : Bool) (digits : Text) : Option Int :=
  let size := ofDigits 10 (digits.filterMap hexDigit?)
  let value : Int := if negative then -size else size
  if digits.isEmpty || !isSigned64 value then none else some value

/-- An index behind its opening bracket, with blanks around it. -/
def index? (text : Text) : Option (Step × Text) :=
  let (negative, rest) :=
    match text.dropWhile isBlank with
    | '-' :: rest => (true, rest)
    | rest => (false, rest)
  let (digits, rest) := rest.span Char.isDigit
  match integer? negative digits, rest.dropWhile isBlank with
  | some value, ']' :: rest => some (.index value, rest)
  | _, _ => none

/-- The steps of a text behind the first name; `fuel` bounds their number. -/
def steps? : (fuel : Nat) → Text → Option (List Step)
  | _, [] => some []
  | 0, _ => none
  | fuel + 1, c :: rest => do
    let (step, rest) ← if c == '.' then name? rest else if c == '[' then index? rest else none
    let steps ← steps? fuel rest
    some (step :: steps)

/-- The path that a text names. -/
def ofText? (text : Text) : Option (List Step) := do
  let (first, rest) ← name? text
  let steps ← steps? rest.length rest
  some (first :: steps)

end DocComment.Path
