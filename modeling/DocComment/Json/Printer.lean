import DocComment.Json
import DocComment.Text

/-!
# Writing JSON values

A value is written on one line or with two blanks for each level. Strings escape quotes, backslashes
and controls, and keep every other character.
-/

namespace DocComment.Json

def hexDigits (n : Nat) : Text := [Nat.digitChar (n / 16), Nat.digitChar (n % 16)]

def escapeChar (c : Char) : Text :=
  match c with
  | '"' => ['\\', '"']
  | '\\' => ['\\', '\\']
  | '\x08' => ['\\', 'b']
  | '\x0c' => ['\\', 'f']
  | '\n' => ['\\', 'n']
  | '\r' => ['\\', 'r']
  | '\t' => ['\\', 't']
  | c => if c.toNat < 0x20 then "\\u00".toList ++ hexDigits c.toNat else [c]

def writeString (text : Text) : Text := '"' :: text.flatMap escapeChar ++ ['"']

def writeInt (n : Int) : Text :=
  if n < 0 then '-' :: Nat.toDigits 10 n.natAbs else Nat.toDigits 10 n.natAbs

def writeDecimal (n : Decimal) : Text :=
  (if n.negative then ['-'] else []) ++ Nat.toDigits 10 n.digits ++
    if n.exponent = 0 then [] else 'e' :: writeInt n.exponent

/-- How the parts of a value are set apart: a line break and blanks for the level, or nothing. -/
inductive Layout where
  | compact
  | indented
  deriving DecidableEq, Repr

namespace Layout

def newLine (layout : Layout) (level : Nat) : Text :=
  match layout with
  | compact => []
  | indented => '\n' :: spaces (2 * level)

def colon : Layout → Text
  | compact => [':']
  | indented => [':', ' ']

end Layout

mutual

/-- The text of a value that stands inside `level` arrays and objects. -/
def write (layout : Layout) (level : Nat) : Json → Text
  | null | unheld => "null".toList
  | bool true => "true".toList
  | bool false => "false".toList
  | num value => writeDecimal value
  | str value => writeString value.toList
  | arr [] => ['[', ']']
  | arr items => '[' :: writeItems layout (level + 1) items ++ layout.newLine level ++ [']']
  | obj [] => ['\x7b', '\x7d']
  | obj members =>
    '\x7b' :: writeMembers layout (level + 1) members ++ layout.newLine level ++ ['\x7d']

def writeItems (layout : Layout) (level : Nat) : List Json → Text
  | [] => []
  | item :: rest =>
    layout.newLine level ++ write layout level item ++
      (if rest.isEmpty then [] else [',']) ++ writeItems layout level rest

def writeMembers (layout : Layout) (level : Nat) : List (String × Json) → Text
  | [] => []
  | (name, value) :: rest =>
    layout.newLine level ++ writeString name.toList ++ layout.colon ++ write layout level value ++
      (if rest.isEmpty then [] else [',']) ++ writeMembers layout level rest

end

/-- The text of a value on one line. -/
def compact (json : Json) : String := String.ofList (json.write .compact 0)

/-- The text of a value with a line for each part. -/
def indented (json : Json) : String := String.ofList (json.write .indented 0)

end DocComment.Json
