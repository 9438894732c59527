import DocComment.Assoc
import DocComment.Toml.Scalar

/-!
# TOML documents

A document is a list of lines: a line gives a value under a key, or names the table that the next
lines belong to. A table can be named once; until then the headers of its subtables only imply it,
and dotted keys extend no table but those they made.
-/

namespace DocComment.Toml

/-- How a table came about. -/
inductive Origin where
  /-- Named by a header or written in braces. -/
  | named
  /-- Named only as part of a longer header. -/
  | implied
  /-- Made by a dotted key. -/
  | dotted
  deriving DecidableEq, Repr

/-- What a key stands for while a document is read. -/
inductive Item where
  | value (value : Toml)
  | table (origin : Origin) (contents : List (String × Item))
  /-- Tables that share one header, the last one first. -/
  | tables (elements : List (List (String × Item)))
  deriving Repr, Inhabited

abbrev Contents := List (String × Item)

namespace Item

mutual

def toToml : Item → Toml
  | .value given => given
  | .table _ contents => .table (entries contents)
  | .tables elements => .array (tablesToToml elements).reverse

def entries : List (String × Item) → List (String × Toml)
  | [] => []
  | (key, item) :: rest => (key, item.toToml) :: entries rest

def tablesToToml : List (List (String × Item)) → List Toml
  | [] => []
  | contents :: rest => .table (entries contents) :: tablesToToml rest

end

end Item

/-- A change of the table at a path, which is told how that table came about. Tables missing on the
way are made; a value on the way is in the way, and of tables under one header the last one is
meant. A dotted path does not pass through named tables. -/
def changeAt (dotted : Bool) (change : Origin → Contents → Option Contents) :
    List String → Origin → Contents → Option Contents
  | [], origin, contents => change origin contents
  | key :: path, _, contents =>
    match Assoc.get? key contents with
    | none =>
      let origin := if dotted then .dotted else .implied
      (changeAt dotted change path origin []).map fun inner =>
        Assoc.put key (.table origin inner) contents
    | some (.table origin inner) =>
      if dotted && origin == .named then none
      else
        (changeAt dotted change path origin inner).map fun inner =>
          Assoc.put key (.table origin inner) contents
    | some (.tables (last :: others)) =>
      (changeAt dotted change path .named last).map fun last =>
        Assoc.put key (.tables (last :: others)) contents
    | some _ => none

/-- Puts a value where nothing stands yet. -/
def addNew (key : String) (item : Item) (contents : Contents) : Option Contents :=
  match Assoc.get? key contents with
  | none => some (Assoc.put key item contents)
  | some _ => none

/-- The path to the table of a dotted key, and the key in that table. -/
abbrev Key := List String × String

/-- Gives a value under a key in the table that its line belongs to. -/
def addValue (key : Key) (item : Item) (origin : Origin) (contents : Contents) : Option Contents :=
  changeAt true
    (fun origin contents =>
      if !key.1.isEmpty && origin != .dotted then none else addNew key.2 item contents)
    key.1 origin contents

/-- Names a table. One that was implied is named behind its siblings. -/
def addTable (key : Key) (contents : Contents) : Option Contents :=
  changeAt false
    (fun _ contents =>
      match Assoc.get? key.2 contents with
      | none => some (Assoc.put key.2 (.table .named []) contents)
      | some (.table .implied inner) =>
        some (Assoc.put key.2 (.table .named inner) (Assoc.erase key.2 contents))
      | some _ => none)
    key.1 .named contents

/-- Names one more of several tables. -/
def addTableOfMany (key : Key) (contents : Contents) : Option Contents :=
  changeAt false
    (fun _ contents =>
      match Assoc.get? key.2 contents with
      | none => some (Assoc.put key.2 (.tables [[]]) contents)
      | some (.tables elements) => some (Assoc.put key.2 (.tables ([] :: elements)) contents)
      | some _ => none)
    key.1 .named contents

/-! ## Keys and values -/

def skipBlanks (text : Text) : Text := text.dropWhile isBlank

def isBareKeyChar (c : Char) : Bool := c.isAlphanum || c == '-' || c == '_'

def simpleKey : Reader String := fun text =>
  match text with
  | '"' :: _ | '\'' :: _ =>
    (Scalar.shortString text).map fun (key, rest) => (String.ofList key, rest)
  | text =>
    let (key, rest) := text.span isBareKeyChar
    if key.isEmpty then none else some (String.ofList key, rest)

/-- Further parts of a key, each after a dot; `count` bounds their number. -/
def keyParts : (count : Nat) → Reader (List String)
  | 0, _ => none
  | count + 1, text =>
    match skipBlanks text with
    | '.' :: rest => do
      let (part, rest) ← simpleKey (skipBlanks rest)
      let (parts, rest) ← keyParts count rest
      some (part :: parts, rest)
    | rest => some ([], rest)

/-- The greatest number of parts of a key, and one more than arrays and tables may nest. -/
def limit : Nat := 79

/-- A key and the blanks around its parts. -/
def key : Reader Key := fun text => do
  let (first, rest) ← simpleKey (skipBlanks text)
  let (parts, rest) ← keyParts limit rest
  let path := first :: parts
  some ((path.dropLast, path.getLast (by simp [path])), rest)

/-- Skips a comment; what may stand in a string may stand there. -/
def skipComment : Text → Text
  | '#' :: rest => rest.dropWhile Scalar.isStringChar
  | rest => rest

/-- Skips blanks, line breaks and comments; `inComment` tells whether the text starts inside one. -/
def skipTriviaFrom : (inComment : Bool) → Text → Text
  | _, [] => []
  | _, '\r' :: '\n' :: rest => skipTriviaFrom false rest
  | inComment, c :: rest =>
    if inComment && Scalar.isStringChar c then skipTriviaFrom true rest
    else if c = ' ' ∨ c = '\t' ∨ c = '\n' then skipTriviaFrom false rest
    else if c = '#' then skipTriviaFrom true rest
    else c :: rest

def skipTrivia (text : Text) : Text := skipTriviaFrom false text

mutual

/-- A value; arrays and tables nest `depth` deep at most, and each step of the reader takes one of
`fuel`. -/
def value : (fuel depth : Nat) → Reader Toml
  | 0, _, _ => none
  | fuel + 1, depth, text =>
    match text with
    | '[' :: rest =>
      if depth = 0 then none
      else (items fuel (depth - 1) rest).map fun (items, rest) => (.array items, rest)
    | '\x7b' :: rest =>
      if depth = 0 then none
      else (members fuel (depth - 1) [] rest).map fun (contents, rest) =>
        (.table (Item.entries contents), rest)
    | text => Scalar.read text

/-- The values of an array up to its end; a comma may follow the last one. -/
def items : (fuel depth : Nat) → Reader (List Toml)
  | 0, _, _ => none
  | fuel + 1, depth, text =>
    match skipTrivia text with
    | ']' :: rest => some ([], rest)
    | text => do
      let (first, rest) ← value fuel depth text
      match skipTrivia rest with
      | ',' :: rest =>
        let (others, rest) ← items fuel depth rest
        some (first :: others, rest)
      | ']' :: rest => some ([first], rest)
      | _ => none

/-- The values of a table in braces up to its end, on one line; no comma follows the last one. -/
def members : (fuel depth : Nat) → Contents → Reader Contents
  | 0, _, _, _ => none
  | fuel + 1, depth, contents, text =>
    match contents, skipBlanks text with
    | [], '\x7d' :: rest => some ([], rest)
    | contents, text => do
      let (key, rest) ← key text
      let rest ← expect ['='] rest
      let (value, rest) ← value fuel depth (skipBlanks rest)
      let contents ← addValue key (.value value) .named contents
      match skipBlanks rest with
      | ',' :: rest => members fuel depth contents rest
      | '\x7d' :: rest => some (contents, rest)
      | _ => none

end

/-! ## Dates in tables -/

/-- The key that makes a date of a table. -/
def dateKey : String := "$__toml_private_datetime"

/-- What stands under the date key where that is the first key of a table. -/
def underDateKey? : List (String × Toml) → Option Toml
  | [] => none
  | (key, value) :: _ => if key = dateKey then some value else none

def dateOf? : Toml → Option Toml
  | .string text => if Date.isDate text.toList then some (.date text) else none
  | _ => none

mutual

/-- The value with each table that begins with the date key replaced by its date, whatever else the
table holds; none if one of them gives no date. -/
def withDates? : Toml → Option Toml
  | .array items => (withDatesEach? items).map .array
  | .table entries =>
    match underDateKey? entries with
    | some value => dateOf? value
    | none => (withDatesEntries? entries).map .table
  | value => some value

def withDatesEach? : List Toml → Option (List Toml)
  | [] => some []
  | item :: rest => do some ((← withDates? item) :: (← withDatesEach? rest))

def withDatesEntries? : List (String × Toml) → Option (List (String × Toml))
  | [] => some []
  | (key, value) :: rest => do some ((key, ← withDates? value) :: (← withDatesEntries? rest))

end

/-! ## Lines -/

/-- The end of a line, after blanks and a comment. -/
def endLine (text : Text) : Option Text :=
  match skipComment (skipBlanks text) with
  | [] => some []
  | rest => newLine? rest

/-- What has been read: all tables, and the path of the table that the next lines belong to. -/
structure Progress where
  contents : Contents := []
  path : List String := []
  deriving Repr

/-- Reads one line that is not empty. -/
def line (progress : Progress) (text : Text) : Option (Progress × Text) :=
  match text with
  | '[' :: '[' :: rest => do
    let (key, rest) ← key rest
    let rest ← expect [']', ']'] rest
    let contents ← addTableOfMany key progress.contents
    some ({ contents, path := key.1 ++ [key.2] }, ← endLine rest)
  | '[' :: rest => do
    let (key, rest) ← key rest
    let rest ← expect [']'] rest
    let contents ← addTable key progress.contents
    some ({ contents, path := key.1 ++ [key.2] }, ← endLine rest)
  | text => do
    let (key, rest) ← key text
    let rest ← expect ['='] rest
    let text := skipBlanks rest
    let (value, rest) ← value (2 * text.length + 2) limit text
    let contents ← changeAt false (addValue key (.value value)) progress.path .named
        progress.contents
    some ({ progress with contents }, ← endLine rest)

/-- Reads the lines of a document; `fuel` bounds their number. -/
def readLines : (fuel : Nat) → Progress → Text → Option Contents
  | 0, _, _ => none
  | fuel + 1, progress, text =>
    match skipBlanks text with
    | [] => some progress.contents
    | '#' :: rest =>
      (endLine ('#' :: rest)).bind (readLines fuel progress)
    | text =>
      match newLine? text with
      | some rest => readLines fuel progress rest
      | none => (line progress text).bind fun (progress, rest) => readLines fuel progress rest

/-- A mark that may stand before a document. -/
def byteOrderMark : Char := '\ufeff'

/-- The entries of a document, in the order in which their keys came. A document that is a date has
none. -/
def parse (text : Text) : Option (List (String × Toml)) := do
  let text := if text.head? = some byteOrderMark then text.tail else text
  let contents ← readLines (text.length + 1) {} text
  match ← withDates? (.table (Item.entries contents)) with
  | .table entries => some entries
  | _ => none

end DocComment.Toml
