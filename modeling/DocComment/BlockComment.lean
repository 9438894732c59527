import DocComment.Text

/-!
# Block comments around raw text

The text is kept as it is, with an asterisk put in front of each line that lacks one; only the
second line tells how far the text is indented, since the first one follows the opening of the
comment.
-/

namespace DocComment.BlockComment

/-- The number of blanks that open the second line, if anything at all follows them. -/
def indentation (doc : Text) : Nat :=
  let rest := (doc.dropWhile (· != '\n')).tail
  if rest.all isBlank then 0 else (rest.takeWhile isBlank).length

/-- A line after the first, with an asterisk after its blanks; an empty line has it in line with the
others. -/
def star (indent : Nat) (line : Text) : Text :=
  match line.dropWhile isBlank with
  | [] => spaces indent ++ ['*']
  | '*' :: _ => line
  | body => line.takeWhile isBlank ++ '*' :: ' ' :: body

/-- The lines after the first. A blank one at the end is where the comment is closed, and gets no
asterisk of its own. -/
def starLines (indent : Nat) : List Text → List Text
  | [] => []
  | line :: rest =>
    if rest.isEmpty && line.all isBlank then [line] else star indent line :: starLines indent rest

/-- The text up to the start of a line: blanks behind a last line feed are dropped, and a line that
holds anything else is ended. -/
def onNewLine (text : Text) : Text :=
  let kept := dropEndWhile isBlank text
  if kept.getLast? = some '\n' then kept else text ++ ['\n']

/-- The text as a block comment; the asterisks below the opening line up with its second one. -/
def frame (doc : Text) : Text :=
  let indent := indentation doc
  let opening := spaces (indent - 1) ++ "/**".toList
  let closing := spaces indent ++ "*/\n".toList
  match lines doc with
  | (line, []) => opening ++ line ++ closing
  | (first, rest) => onNewLine (unlines (opening ++ first) (starLines indent rest)) ++ closing

end DocComment.BlockComment

namespace DocComment

/-- The raw text of a comment as a block comment. -/
def blockComment (doc : String) : String := String.ofList (BlockComment.frame doc.toList)

end DocComment
