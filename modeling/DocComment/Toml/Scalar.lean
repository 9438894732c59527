import DocComment.Toml
import DocComment.Toml.Date

/-!
# Scalars of TOML documents

Strings, numbers, dates and the two words of truth.
-/

namespace DocComment.Toml

namespace Scalar

/-! ## Strings -/

/-- What may stand in a string for itself, quotes and backslashes aside. -/
def isStringChar (c : Char) : Bool := c == '\t' || (c.toNat ≥ 0x20 && c.toNat != 0x7f)

/-- The character of a code in hexadecimal digits, if it is one. -/
def charOfCode? (digits : Text) : Option Char :=
  (digits.mapM hexDigit?).bind fun digits =>
    let code := ofDigits 16 digits
    if code.isValidChar then some (Char.ofNat code) else none

def escaped? : Char → Option Char
  | 'b' => some '\x08'
  | 't' => some '\t'
  | 'n' => some '\n'
  | 'f' => some '\x0c'
  | 'r' => some '\r'
  | '"' => some '"'
  | '\\' => some '\\'
  | _ => none

/-- The text of a string up to its closing quote. -/
def basicBody : Reader Text
  | [] => none
  | '"' :: rest => some ([], rest)
  | '\\' :: 'u' :: a :: b :: c :: d :: rest => do
    let char ← charOfCode? [a, b, c, d]
    let (text, rest) ← basicBody rest
    some (char :: text, rest)
  | '\\' :: 'U' :: a :: b :: c :: d :: e :: f :: g :: h :: rest => do
    let char ← charOfCode? [a, b, c, d, e, f, g, h]
    let (text, rest) ← basicBody rest
    some (char :: text, rest)
  | '\\' :: c :: rest => do
    let char ← escaped? c
    let (text, rest) ← basicBody rest
    some (char :: text, rest)
  | c :: rest =>
    if isStringChar c && c != '\\' then do
      let (text, rest) ← basicBody rest
      some (c :: text, rest)
    else none

def literalBody : Reader Text
  | [] => none
  | '\'' :: rest => some ([], rest)
  | c :: rest =>
    if isStringChar c then do
      let (text, rest) ← literalBody rest
      some (c :: text, rest)
    else none

/-- The end of a string over several lines, after its closing quotes: up to two more quotes belong
to the string. -/
def extraQuotes (quote : Char) : Reader Text
  | a :: b :: c :: rest =>
    if a ≠ quote then some ([], a :: b :: c :: rest)
    else if b ≠ quote then some ([quote], b :: c :: rest)
    else if c ≠ quote then some ([quote, quote], c :: rest)
    else none
  | [a, b] =>
    if a ≠ quote then some ([], [a, b])
    else if b ≠ quote then some ([quote], [b])
    else some ([quote, quote], [])
  | [a] => if a ≠ quote then some ([], [a]) else some ([quote], [])
  | [] => some ([], [])

/-- The text of a string over several lines. After a backslash at the end of a line, blanks and line
breaks are skipped. -/
def longBasicBody (skip : Bool) : Reader Text
  | [] => none
  | '"' :: '"' :: '"' :: rest => extraQuotes '"' rest
  | '\\' :: 'u' :: a :: b :: c :: d :: rest => do
    let char ← charOfCode? [a, b, c, d]
    let (text, rest) ← longBasicBody false rest
    some (char :: text, rest)
  | '\\' :: 'U' :: a :: b :: c :: d :: e :: f :: g :: h :: rest => do
    let char ← charOfCode? [a, b, c, d, e, f, g, h]
    let (text, rest) ← longBasicBody false rest
    some (char :: text, rest)
  | '\\' :: rest =>
    if (newLine? (rest.dropWhile isBlank)).isSome then longBasicBody true rest
    else
      match rest with
      | c :: rest => do
        let char ← escaped? c
        let (text, rest) ← longBasicBody false rest
        some (char :: text, rest)
      | [] => none
  | '\r' :: '\n' :: rest =>
    if skip then longBasicBody true rest
    else do
      let (text, rest) ← longBasicBody false rest
      some ('\n' :: text, rest)
  | c :: rest =>
    if skip && (isBlank c || c == '\n') then longBasicBody true rest
    else if isStringChar c || c == '\n' then do
      let (text, rest) ← longBasicBody false rest
      some (c :: text, rest)
    else none

def longLiteralBody : Reader Text
  | [] => none
  | '\'' :: '\'' :: '\'' :: rest => extraQuotes '\'' rest
  | '\r' :: '\n' :: rest => do
    let (text, rest) ← longLiteralBody rest
    some ('\n' :: text, rest)
  | c :: rest =>
    if isStringChar c || c == '\n' then do
      let (text, rest) ← longLiteralBody rest
      some (c :: text, rest)
    else none

/-- A line break right after the opening quotes is no part of the string. -/
def skipFirstBreak (text : Text) : Text := (newLine? text).getD text

def string : Reader Text
  | '"' :: '"' :: '"' :: rest => longBasicBody false (skipFirstBreak rest)
  | '"' :: rest => basicBody rest
  | '\'' :: '\'' :: '\'' :: rest => longLiteralBody (skipFirstBreak rest)
  | '\'' :: rest => literalBody rest
  | _ => none

/-- A string on one line, as it may stand for a key. -/
def shortString : Reader Text
  | '"' :: rest => basicBody rest
  | '\'' :: rest => literalBody rest
  | _ => none

/-! ## Numbers -/

/-- Digits after the first one; an underscore may stand between two. -/
def moreDigits (digit? : Char → Option Nat) : Text → List Nat × Text
  | [] => ([], [])
  | '_' :: c :: rest =>
    match digit? c with
    | some digit =>
      let (digits, rest) := moreDigits digit? rest
      (digit :: digits, rest)
    | none => ([], '_' :: c :: rest)
  | c :: rest =>
    match digit? c with
    | some digit =>
      let (digits, rest) := moreDigits digit? rest
      (digit :: digits, rest)
    | none => ([], c :: rest)

def digitRun (digit? : Char → Option Nat) : Reader (List Nat)
  | [] => none
  | c :: rest => (digit? c).map fun digit =>
    let (digits, rest) := moreDigits digit? rest
    (digit :: digits, rest)

/-- A sign, and whether it is a minus. -/
def sign : Text → Bool × Text
  | '-' :: rest => (true, rest)
  | '+' :: rest => (false, rest)
  | rest => (false, rest)

/-- Decimal digits without a leading zero. -/
def wholeDigits : Reader (List Nat)
  | '0' :: rest => some ([0], rest)
  | rest => digitRun (digitBelow? 10) rest

def fraction : Reader (List Nat)
  | '.' :: rest => digitRun (digitBelow? 10) rest
  | _ => none

def exponent : Reader Int
  | c :: rest =>
    if c == 'e' || c == 'E' then do
      let (negative, rest) := sign rest
      let (digits, rest) ← digitRun (digitBelow? 10) rest
      let value : Int := ofDigits 10 digits
      some (if negative then -value else value, rest)
    else none
  | [] => none

/-- A number with a fraction, an exponent or both. Beyond the greatest double it is no number, and
below the least one it is infinite. -/
def float : Reader FloatValue := fun text => do
  let (negative, rest) := sign text
  let (whole, rest) ← wholeDigits rest
  let (fraction, exponent, rest) ←
    match fraction rest with
    | some (digits, rest) =>
      match exponent rest with
      | some (exponent, rest) => some (digits, exponent, rest)
      | none => some (digits, 0, rest)
    | none => (exponent rest).map fun (exponent, rest) => ([], exponent, rest)
  let value : Decimal :=
    { negative, digits := ofDigits 10 (whole ++ fraction), exponent := exponent - fraction.length }
  if !value.overflows then some (.finite value, rest)
  else if negative then some (.infinite true, rest)
  else none

def specialFloat : Reader FloatValue := fun text =>
  let (negative, rest) := sign text
  match expect "inf".toList rest with
  | some rest => some (.infinite negative, rest)
  | none => (expect "nan".toList rest).map fun rest => (.nan, rest)

/-- An integer in a base that its first characters name. -/
def basedInteger (base : Nat) : Reader Int := fun text => do
  let (digits, rest) ← digitRun (digitBelow? base) text
  some (ofDigits base digits, rest)

def decimalInteger : Reader Int := fun text => do
  let (negative, rest) := sign text
  let (digits, rest) ← wholeDigits rest
  let value : Int := ofDigits 10 digits
  some (if negative then -value else value, rest)

/-- An integer of 64 bits. -/
def integer : Reader Int := fun text => do
  let (value, rest) ←
    match text with
    | '0' :: 'x' :: rest => basedInteger 16 rest
    | '0' :: 'o' :: rest => basedInteger 8 rest
    | '0' :: 'b' :: rest => basedInteger 2 rest
    | text => decimalInteger text
  if isSigned64 value then some (value, rest) else none

/-! ## All scalars -/

def number : Reader Toml := fun text =>
  match Date.read text with
  | some (written, rest) => some (.date (String.ofList written), rest)
  | none =>
    match (float text).or (specialFloat text) with
    | some (value, rest) => some (.float value, rest)
    | none => (integer text).map fun (value, rest) => (.int value, rest)

def read : Reader Toml
  | '"' :: rest =>
    (string ('"' :: rest)).map fun (text, rest) => (.string (String.ofList text), rest)
  | '\'' :: rest =>
    (string ('\'' :: rest)).map fun (text, rest) => (.string (String.ofList text), rest)
  | 't' :: rest => (expect "rue".toList rest).map fun rest => (.bool true, rest)
  | 'f' :: rest => (expect "alse".toList rest).map fun rest => (.bool false, rest)
  | text => number text

end Scalar

end DocComment.Toml
