import DocComment.Digits
import DocComment.Toml.Reader

/-!
# Dates and times

A date is a day, a time of day, or a day with a time and perhaps an offset. It stands in a document
as it is, or as a string that has to hold a date; a string may also name the hour 24 and offsets of
up to 24 hours, and give an offset without a time.
-/

namespace DocComment.Toml.Date

/-- Exactly `count` digits, as a number within bounds. -/
def boundedDigits (count low high : Nat) : Reader Nat := fun text => do
  let digits ← (text.take count).mapM (digitBelow? 10)
  let value := ofDigits 10 digits
  if digits.length = count ∧ low ≤ value ∧ value ≤ high then some (value, text.drop count) else none

def daysIn (year month : Nat) : Nat :=
  if month = 2 then
    if year % 4 = 0 ∧ (year % 100 ≠ 0 ∨ year % 400 = 0) then 29 else 28
  else if month ∈ [4, 6, 9, 11] then 30
  else 31

def day (text : Text) : Option Text := do
  let (year, rest) ← boundedDigits 4 0 9999 text
  let rest ← expect ['-'] rest
  let (month, rest) ← boundedDigits 2 1 12 rest
  let rest ← expect ['-'] rest
  let (day, rest) ← boundedDigits 2 1 31 rest
  if day ≤ daysIn year month then some rest else none

/-- A time of day; a minute may have a leap second. -/
def time (latestHour : Nat) (text : Text) : Option Text := do
  let (_, rest) ← boundedDigits 2 0 latestHour text
  let rest ← expect [':'] rest
  let (_, rest) ← boundedDigits 2 0 59 rest
  let rest ← expect [':'] rest
  let (_, rest) ← boundedDigits 2 0 60 rest
  match rest with
  | '.' :: c :: more => if c.isDigit then some (more.dropWhile Char.isDigit) else some rest
  | rest => some rest

/-- An offset whose hours and minutes satisfy a test. -/
def offset (within : Nat → Nat → Bool) : Text → Option Text
  | 'Z' :: rest | 'z' :: rest => some rest
  | '+' :: rest | '-' :: rest => do
    let (hours, rest) ← boundedDigits 2 0 99 rest
    let rest ← expect [':'] rest
    let (minutes, rest) ← boundedDigits 2 0 99 rest
    if within hours minutes then some rest else none
  | _ => none

/-- What may stand between a day and a time. -/
def isDivider (c : Char) : Bool := c == 'T' || c == 't' || c == ' '

/-- The time behind a day, if there is one. -/
def timeOfDay : Text → Option Text
  | [] => none
  | c :: rest =>
    if isDivider c then
      (time 23 rest).map fun rest =>
        (offset (fun hours minutes => hours ≤ 23 && minutes ≤ 59) rest).getD rest
    else none

/-- A date that stands in a document, as it is written. -/
def read : Reader Text := fun text => do
  let rest ←
    match day text with
    | some rest => some ((timeOfDay rest).getD rest)
    | none => time 23 text
  some (text.take (text.length - rest.length), rest)

/-- What a string may hold behind a day. -/
def endsDay (text : Text) : Bool :=
  let rest? :=
    match text with
    | [] => some []
    | c :: rest => if isDivider c then time 24 rest else some (c :: rest)
  match rest? with
  | none => false
  | some [] => true
  | some rest => offset (fun hours minutes => 60 * hours + minutes ≤ 24 * 60) rest == some []

/-- Whether a string holds a date. A colon in the third place tells a time from a day. -/
def isDate (text : Text) : Bool :=
  if text[2]? = some ':' then time 24 text == some []
  else (day text).any endsDay

end DocComment.Toml.Date
