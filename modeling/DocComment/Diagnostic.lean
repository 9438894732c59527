import DocComment.Text.Quoted

/-!
# Recorded warnings

Warnings that were recorded when a comment was read.
-/

namespace DocComment

inductive WarningKind where
  | unknownCommand
  | unexpectedEndOfComment
  | commandExpected
  | htmlError
  | commandError
  | unknownCharacter
  | unexpectedIteratorValue
  deriving DecidableEq, Repr

namespace WarningKind

def all : List WarningKind :=
  [unknownCommand, unexpectedEndOfComment, commandExpected, htmlError, commandError,
    unknownCharacter, unexpectedIteratorValue]

def name : WarningKind → String
  | unknownCommand => "unknown-command"
  | unexpectedEndOfComment => "unexpected-end-of-comment"
  | commandExpected => "command-expected"
  | htmlError => "html-error"
  | commandError => "command-error"
  | unknownCharacter => "unknown-character"
  | unexpectedIteratorValue => "unexpected-iterator-value"

def ofName? (name : String) : Option WarningKind := all.find? fun kind => kind.name == name

@[simp] theorem ofName?_name (kind : WarningKind) : ofName? kind.name = some kind := by
  cases kind <;> rfl

def code : WarningKind → Nat
  | unknownCommand => 560
  | unexpectedEndOfComment => 561
  | commandExpected => 562
  | htmlError => 563
  | commandError => 564
  | unknownCharacter => 565
  | unexpectedIteratorValue => 566

/-- The code as it is shown. -/
def label (kind : WarningKind) : String := "W" ++ toString kind.code

end WarningKind

structure Diagnostic where
  kind : WarningKind
  message : String
  deriving DecidableEq, Repr

/-- The text of a character in the log. Characters that could steer a terminal are shown by their
code; the other controls stay as they are. -/
def logChar (c : Char) : Text :=
  match c with
  | '\x07' => "\\x07".toList
  | '\x08' => "\\x08".toList
  | '\x0c' => "\\x0c".toList
  | '\x1b' => "\\x1b".toList
  | '\x7f' => "\\x7f".toList
  | c => if '\u0080' ≤ c ∧ c ≤ '\u009f' then codeEscape c else [c]

/-- What the log says about a warning. -/
def Diagnostic.logText (diagnostic : Diagnostic) : String :=
  "Doxygen parser warning: " ++ String.ofList (diagnostic.message.toList.flatMap logChar) ++
    ". code=" ++ toString diagnostic.kind.code

end DocComment
