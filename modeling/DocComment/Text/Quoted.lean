import DocComment.Text

/-!
# Quoted text

Text in double quotes, as it is shown in a drawing. Which characters are shown by their code is a
parameter; quotes, backslashes and the common controls always have an escape of their own.
-/

namespace DocComment

/-- The code of a character in braces, in hexadecimal digits without leading zeros. -/
def codeEscape (c : Char) : Text := "\\u\x7b".toList ++ Nat.toDigits 16 c.toNat ++ ['\x7d']

def quoteChar (unprintable : Char → Bool) (c : Char) : Text :=
  match c with
  | '\t' => ['\\', 't']
  | '\r' => ['\\', 'r']
  | '\n' => ['\\', 'n']
  | '\x00' => ['\\', '0']
  | '"' => ['\\', '"']
  | '\\' => ['\\', '\\']
  | c => if unprintable c then codeEscape c else [c]

def quote (unprintable : Char → Bool) (text : Text) : Text :=
  '"' :: text.flatMap (quoteChar unprintable) ++ ['"']

end DocComment
