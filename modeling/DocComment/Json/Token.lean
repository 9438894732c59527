import DocComment.Digits
import DocComment.Json.Numeral
import DocComment.Text

/-!
# Tokens of JSON texts

A machine reads one character at a time; blanks separate tokens and leave no trace. A text that is
no sequence of tokens ends in a token that says what is wrong with it.

In strict reading, half a surrogate pair and a number out of range are faults. In lenient reading
they give tokens that hold no value.
-/

namespace DocComment.Json

inductive Fault where
  /-- The text ends inside a string. -/
  | cutString
  /-- The text ends inside a numeral or a word. -/
  | cut
  | malformed
  deriving DecidableEq, Repr

inductive Token where
  | openArray
  | closeArray
  | openObject
  | closeObject
  | comma
  | colon
  /-- A word or a number. -/
  | scalar (value : Json)
  /-- A string, if it can be held. -/
  | string (value : Option String)
  | broken (fault : Fault)
  deriving Repr

namespace Token

inductive NumeralPart where
  | sign
  | zero
  | whole
  | point
  | fraction
  | mark
  | markSign
  | exponent
  deriving DecidableEq, Repr

/-- The string read so far, last character first; none if it cannot be held. -/
abbrev Held := Option Text

/-- Where the machine stands between two characters. -/
inductive State where
  /-- Between tokens. -/
  | idle
  /-- Inside a word, with the characters still to come. -/
  | word (value : Json) (expected : Text)
  /-- Inside a numeral, its digits collected last first. -/
  | numeral (part : NumeralPart) (digits : Numeral)
  | string (held : Held)
  /-- After a backslash; `high` is a high surrogate that waits for its pair. -/
  | escape (held : Held) (high : Option Nat)
  /-- Inside the four digits of a code: their size in bytes so far, and their value if all are
  digits. -/
  | code (held : Held) (high : Option Nat) (size : Nat) (value : Option Nat)
  /-- After a high surrogate. -/
  | pair (held : Held) (high : Nat)
  /-- After a fault. -/
  | stopped
  deriving Repr

def isSpace (c : Char) : Bool := c == ' ' || c == '\n' || c == '\t' || c == '\r'

/-- The character of an escape other than a code. -/
def escaped? : Char → Option Char
  | '"' => some '"'
  | '\\' => some '\\'
  | '/' => some '/'
  | 'b' => some '\x08'
  | 'f' => some '\x0c'
  | 'n' => some '\n'
  | 'r' => some '\r'
  | 't' => some '\t'
  | _ => none

/-- What a step gives: tokens and the next state. -/
abbrev Step := List Token × State

def fault (fault : Fault) : Step := ([.broken fault], .stopped)

/-- Half a surrogate pair: a fault in strict reading, otherwise the string cannot be held. -/
def unpaired (lenient : Bool) (go : Held → Step) : Step :=
  if lenient then go none else fault .malformed

/-- A character at the start of a token or between tokens. -/
def start (c : Char) : Step :=
  if isSpace c then ([], .idle)
  else if c.isDigit && c != '0' then ([], .numeral .whole { whole := [c.toNat - '0'.toNat] })
  else
    match c with
    | '[' => ([.openArray], .idle)
    | ']' => ([.closeArray], .idle)
    | '\x7b' => ([.openObject], .idle)
    | '\x7d' => ([.closeObject], .idle)
    | ',' => ([.comma], .idle)
    | ':' => ([.colon], .idle)
    | '"' => ([], .string (some []))
    | 'n' => ([], .word .null "ull".toList)
    | 't' => ([], .word (.bool true) "rue".toList)
    | 'f' => ([], .word (.bool false) "alse".toList)
    | '-' => ([], .numeral .sign { negative := true, whole := [] })
    | '0' => ([], .numeral .zero { whole := [0] })
    | _ => fault .malformed

/-- The number of a numeral whose digits were collected last first. -/
def number (lenient : Bool) (digits : Numeral) : Token :=
  let numeral := { digits with
    whole := digits.whole.reverse
    fraction := digits.fraction.reverse
    exponent := digits.exponent.reverse }
  if numeral.inRange then .scalar (.num numeral.toDecimal)
  else if lenient then .scalar .unheld
  else .broken .malformed

/-- A numeral that ends before `c`. -/
def endNumeral (lenient : Bool) (digits : Numeral) (c : Char) : Step :=
  match number lenient digits with
  | .broken kind => fault kind
  | token => (token :: (start c).1, (start c).2)

def inNumeral (lenient : Bool) (part : NumeralPart) (digits : Numeral) (c : Char) : Step :=
  let digit := c.toNat - '0'.toNat
  let moreWhole := { digits with whole := digit :: digits.whole }
  let moreFraction := { digits with fraction := digit :: digits.fraction }
  let moreExponent := { digits with exponent := digit :: digits.exponent }
  let isMark := c == 'e' || c == 'E'
  match part with
  | .sign =>
    if c == '0' then ([], .numeral .zero moreWhole)
    else if c.isDigit then ([], .numeral .whole moreWhole)
    else fault .malformed
  | .zero =>
    if c.isDigit then fault .malformed
    else if c == '.' then ([], .numeral .point digits)
    else if isMark then ([], .numeral .mark digits)
    else endNumeral lenient digits c
  | .whole =>
    if c.isDigit then ([], .numeral .whole moreWhole)
    else if c == '.' then ([], .numeral .point digits)
    else if isMark then ([], .numeral .mark digits)
    else endNumeral lenient digits c
  | .point => if c.isDigit then ([], .numeral .fraction moreFraction) else fault .malformed
  | .fraction =>
    if c.isDigit then ([], .numeral .fraction moreFraction)
    else if isMark then ([], .numeral .mark digits)
    else endNumeral lenient digits c
  | .mark =>
    if c.isDigit then ([], .numeral .exponent moreExponent)
    else if c == '+' then ([], .numeral .markSign digits)
    else if c == '-' then ([], .numeral .markSign { digits with exponentNegative := true })
    else fault .malformed
  | .markSign => if c.isDigit then ([], .numeral .exponent moreExponent) else fault .malformed
  | .exponent =>
    if c.isDigit then ([], .numeral .exponent moreExponent) else endNumeral lenient digits c

def inString (held : Held) (c : Char) : Step :=
  if c == '"' then ([.string (held.map fun text => String.ofList text.reverse)], .idle)
  else if c == '\\' then ([], .escape held none)
  else if c.toNat < 0x20 then fault .malformed
  else ([], .string (held.map (c :: ·)))

def inEscape (held : Held) (c : Char) : Step :=
  if c == 'u' then ([], .code held none 0 (some 0))
  else
    match escaped? c with
    | some char => ([], .string (held.map (char :: ·)))
    | none => fault .malformed

def isHigh (code : Nat) : Bool := 0xD800 ≤ code && code < 0xDC00

def isLow (code : Nat) : Bool := 0xDC00 ≤ code && code < 0xE000

/-- A complete code, after a high surrogate or not. -/
def endCode (lenient : Bool) (held : Held) (high : Option Nat) (code : Nat) : Step :=
  match high with
  | some high =>
    if isLow code then
      let char := Char.ofNat (0x10000 + (high - 0xD800) * 0x400 + (code - 0xDC00))
      ([], .string (held.map (char :: ·)))
    else unpaired lenient fun held => ([], .string held)
  | none =>
    if isHigh code then ([], .pair held code)
    else if isLow code then unpaired lenient fun held => ([], .string held)
    else ([], .string (held.map (Char.ofNat code :: ·)))

/-- A code takes four bytes of the text, and only then is it told whether they are digits. -/
def inCode (lenient : Bool) (held : Held) (high : Option Nat) (size : Nat) (value : Option Nat)
    (c : Char) : Step :=
  let size := size + c.utf8Size
  let value := value.bind fun n => (hexDigit? c).map fun digit => 16 * n + digit
  if size < 4 then ([], .code held high size value)
  else
    match value with
    | some code => endCode lenient held high code
    | none => fault .malformed

def step (lenient : Bool) : State → Char → Step
  | .idle, c => start c
  | .word value [], c => (.scalar value :: (start c).1, (start c).2)
  | .word value [last], c => if c = last then ([.scalar value], .idle) else fault .malformed
  | .word value (next :: more), c => if c = next then ([], .word value more) else fault .malformed
  | .numeral part digits, c => inNumeral lenient part digits c
  | .string held, c => inString held c
  | .escape held none, c => inEscape held c
  | .escape held (some high), c =>
    if c == 'u' then ([], .code held (some high) 0 (some 0))
    else unpaired lenient fun held => inEscape held c
  | .code held high size value, c => inCode lenient held high size value c
  | .pair held high, c =>
    if c == '\\' then ([], .escape held (some high))
    else unpaired lenient fun held => inString held c
  | .stopped, _ => ([], .stopped)

/-- The tokens left at the end of the text. -/
def finish (lenient : Bool) : State → List Token
  | .idle | .stopped => []
  | .word value [] => [.scalar value]
  | .word _ _ => [.broken .cut]
  | .numeral .zero digits | .numeral .whole digits | .numeral .fraction digits
  | .numeral .exponent digits => [number lenient digits]
  | .numeral _ _ => [.broken .cut]
  | .string _ | .escape _ _ | .code _ _ _ _ | .pair _ _ => [.broken .cutString]

/-- The tokens of a text read from a state on. -/
def ofTextFrom (lenient : Bool) (state : State) : Text → List Token
  | [] => finish lenient state
  | c :: cs =>
    let next := step lenient state c
    next.1 ++ ofTextFrom lenient next.2 cs

/-- The tokens of a text. -/
def ofText (lenient : Bool) (text : Text) : List Token := ofTextFrom lenient .idle text

end Token

end DocComment.Json
