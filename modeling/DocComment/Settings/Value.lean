import DocComment.Assoc
import DocComment.LogLevel
import DocComment.Toml

/-!
# Trees of settings

Values before it is known which of them mean something. Tables merge key by key, and a value is put
at a path whatever stands in the way. Keys are compared in lower case.
-/

namespace DocComment

inductive Setting where
  | empty
  | bool (value : Bool)
  | int (value : Int)
  | float (value : FloatValue)
  | text (value : String)
  | list (items : List Setting)
  | table (entries : List (String × Setting))
  deriving Repr, Inhabited

/-- A step from a setting to one inside it. A negative index counts from the end. -/
inductive Step where
  | key (name : String)
  | index (position : Int)
  deriving DecidableEq, Repr

/-- The lower case of a letter, where it is an ASCII letter. -/
def lowerChar (c : Char) : Char := if c == '\u212a' then 'k' else c.toLower

def lowerCase (name : String) : String := String.ofList (name.toList.map lowerChar)

namespace Setting

mutual

def ofToml : Toml → Setting
  | .bool value => bool value
  | .int value => int value
  | .float value => float value
  | .string value => text value
  | .date written => text written
  | .array items => list (ofTomlEach items)
  | .table entries => table (ofTomlEntries entries)

def ofTomlEach : List Toml → List Setting
  | [] => []
  | item :: rest => ofToml item :: ofTomlEach rest

def ofTomlEntries : List (String × Toml) → List (String × Setting)
  | [] => []
  | (key, value) :: rest => (key, ofToml value) :: ofTomlEntries rest

end

/-- The entries of a table; anything else has none. -/
def entries : Setting → List (String × Setting)
  | table entries => entries
  | _ => []

@[simp] theorem entries_table (given : List (String × Setting)) : entries (table given) = given :=
  rfl

/-- The items of a list; anything else has none. -/
def items : Setting → List Setting
  | list items => items
  | _ => []

mutual

/-- What stands for a key once a value is set there: a table goes into what was there key by key,
and any other value takes its place. -/
def merge : Setting → Option Setting → Setting
  | table entries, old => mergeEntries entries (old.getD (table []))
  | value, _ => value

/-- Sets each entry in a setting, which becomes a table with the first one. -/
def mergeEntries : List (String × Setting) → Setting → Setting
  | [], old => old
  | (key, value) :: rest, old =>
    let key := lowerCase key
    mergeEntries rest (table (Assoc.put key (merge value (Assoc.get? key old.entries)) old.entries))

end

/-- Where an index points in a list of a length. -/
def position (length : Nat) (index : Int) : Nat :=
  if index < 0 then length - index.natAbs else index.toNat

/-- Changes what stands at a path; what is not yet a table or a list on the way becomes one. -/
def changeAt (change : Option Setting → Setting) : List Step → Option Setting → Setting
  | [], old => change old
  | .key name :: path, old =>
    let key := lowerCase name
    let entries := (old.getD empty).entries
    table (Assoc.put key (changeAt change path (Assoc.get? key entries)) entries)
  | .index index :: path, old =>
    let items := (old.getD empty).items
    let place := position items.length index
    let items := items ++ List.replicate (place + 1 - items.length) empty
    list (items.set place (changeAt change path items[place]?))

/-- Sets a value at a path: merged under a key, and as it is at an index. -/
def assign (path : List Step) (value root : Setting) : Setting :=
  match path.getLast? with
  | some (.index _) => changeAt (fun _ => value) path (some root)
  | _ => changeAt (merge value) path (some root)

/-! ## Readings -/

/-- The yes or no of a setting. -/
def bool? : Setting → Option Bool
  | bool value => some value
  | int value => some (value != 0)
  | float value => some !value.isZero
  | text value =>
    let word := lowerCase value
    if word ∈ ["1", "true", "on", "yes"] then some true
    else if word ∈ ["0", "false", "off", "no"] then some false
    else none
  | empty | list _ | table _ => none

/-- The log level of a setting: its name, alone or as the only key of a table. -/
def level? : Setting → Option LogLevel
  | text name => LogLevel.ofName? (lowerCase name)
  | table [(name, _)] => LogLevel.ofName? (lowerCase name)
  | _ => none

/-- The settings given for the fields `names`, by key or in order. -/
def fields (names : List String) : Setting → Option (String → Option Setting)
  | table entries => some fun name => Assoc.get? name entries
  | list items => some fun name => Assoc.get? name (names.zip items)
  | _ => none

end Setting

end DocComment
