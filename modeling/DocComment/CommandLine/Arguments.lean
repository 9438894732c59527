import DocComment.Batch

/-!
# The arguments of the program

Words are read in order at the top and then, after the name of a command, at that command; options
may stand before and after a word, and two dashes make words of all that follow. A word or an option
that takes a value is taken in when the next thing comes, so what ends the reading early, such as a
request for help, is met only if all before it is in order.
-/

namespace DocComment.CommandLine

inductive Command where
  | inspect
  | convert
  deriving DecidableEq, Repr

namespace Command

def name : Command → String
  | inspect => "inspect"
  | convert => "convert"

def ofName? (name : String) : Option Command := [inspect, convert].find? (·.name == name)

end Command

/-- Where words are read: at the top or at a command. -/
abbrev Level := Option Command

/-- The word that asks for help on a command. -/
def helpWord : String := "help"

inductive Opt where
  | listTransforms
  | listTags
  | config
  | debug
  | output
  | help
  | version
  deriving DecidableEq, Repr

namespace Opt

def all : List Opt := [listTransforms, listTags, config, debug, output, help, version]

def long : Opt → String
  | listTransforms => "list-transforms"
  | listTags => "list-tags"
  | config => "config"
  | debug => "debug"
  | output => "output"
  | help => "help"
  | version => "version"

def short? : Opt → Option Char
  | debug => some 'd'
  | output => some 'o'
  | help => some 'h'
  | version => some 'V'
  | listTransforms | listTags | config => none

def takesValue : Opt → Bool
  | config | output => true
  | _ => false

/-- Whether an option may stand at a level. -/
def allowedAt (level : Level) : Opt → Bool
  | output => level == some .convert
  | version => level == none
  | _ => true

def ofLong? (level : Level) (name : Text) : Option Opt :=
  all.find? fun opt => opt.allowedAt level && opt.long.toList == name

def ofShort? (level : Level) (c : Char) : Option Opt :=
  all.find? fun opt => opt.allowedAt level && opt.short? == some c

end Opt

/-- How the reading ends without a request. -/
inductive Stop where
  | usage
  | help (level : Level)
  | version
  deriving DecidableEq, Repr

/-- What has been taken in at a level. -/
structure Given where
  listTransforms : Bool := false
  listTags : Bool := false
  config : Option String := none
  debug : Nat := 0
  output : Option String := none
  words : List String := []
  deriving DecidableEq, Repr

/-- What waits to be taken in: an option, with its value once that has come, or a word. -/
inductive Pending where
  | opt (opt : Opt) (value : Option String)
  | word (word : String)
  deriving DecidableEq, Repr

structure State where
  given : Given := {}
  pending : Option Pending := none
  /-- Whether two dashes have come. -/
  onlyWords : Bool := false
  deriving DecidableEq, Repr

namespace Given

def isEmpty (given : Given) : Bool := given == {}

/-- Takes in an option that stands alone. -/
def flag (level : Level) (given : Given) : Opt → Except Stop Given
  | .listTransforms =>
    if given.listTransforms then .error .usage else .ok { given with listTransforms := true }
  | .listTags => if given.listTags then .error .usage else .ok { given with listTags := true }
  | .debug => .ok { given with debug := given.debug + 1 }
  | .help => .error (.help level)
  | .version => .error .version
  | .config | .output => .error .usage

/-- Takes in an option with its value. -/
def value (given : Given) (opt : Opt) (value : String) : Except Stop Given :=
  match opt with
  | .config =>
    if given.config.isSome then .error .usage else .ok { given with config := some value }
  | .output =>
    if given.output.isSome then .error .usage else .ok { given with output := some value }
  | _ => .error .usage

/-- Takes in a word; the second one of an inspection names a transform. -/
def word (level : Level) (given : Given) (word : String) : Except Stop Given :=
  if level = some .inspect ∧ given.words.length = 1 ∧ word ∉ Transform.names then .error .usage
  else .ok { given with words := given.words ++ [word] }

end Given

namespace State

/-- Whether the next word is the value of an option. -/
def awaitsValue (state : State) : Bool :=
  match state.pending with
  | some (.opt _ none) => true
  | _ => false

/-- Takes in what waits. -/
def settle (level : Level) (state : State) : Except Stop State :=
  match state.pending with
  | none => .ok state
  | some pending => do
    let given ←
      match pending with
      | .opt opt (some value) => state.given.value opt value
      | .opt _ none => .error .usage
      | .word word => state.given.word level word
    return { state with given, pending := none }

/-- An option, with a value if one is attached. -/
def option (level : Level) (state : State) (opt : Opt) (attached : Option Text) :
    Except Stop State := do
  let state ← state.settle level
  match opt.takesValue, attached with
  | true, some value => return { state with given := ← state.given.value opt (String.ofList value) }
  | true, none => return { state with pending := some (.opt opt none) }
  | false, none => return { state with given := ← state.given.flag level opt }
  | false, some _ => .error .usage

/-- The letters after one dash. What follows an option with a value is the value. -/
def letters (level : Level) : State → Text → Except Stop State
  | state, [] => .ok state
  | state, c :: rest =>
    match Opt.ofShort? level c with
    | none => .error .usage
    | some opt =>
      if opt.takesValue then
        match rest with
        | [] => state.option level opt none
        | '=' :: value => state.option level opt (some value)
        | value => state.option level opt (some value)
      else do letters level (← state.option level opt none) rest

/-- The name after two dashes, with a value after an equals sign. -/
def longOption (level : Level) (state : State) (text : Text) : Except Stop State :=
  let (name, rest) := text.span (· != '=')
  match Opt.ofLong? level name with
  | none => .error .usage
  | some opt =>
    match rest with
    | _ :: value => state.option level opt (some value)
    | [] => state.option level opt none

/-- How many words a level takes. -/
def wordLimit : Level → Nat
  | none => 0
  | some .inspect => 2
  | some .convert => 1

/-- A word that is not the name of a command. -/
def word (level : Level) (state : State) (word : String) : Except Stop State :=
  match state.pending, state.onlyWords with
  | some (.opt opt none), false => .ok { state with pending := some (.opt opt (some word)) }
  | _, _ => do
    let state ← state.settle level
    if state.given.words.length < wordLimit level then
      return { state with pending := some (.word word) }
    else .error .usage

/-- One argument. -/
def argument (level : Level) (state : State) (argument : String) : Except Stop State :=
  if state.onlyWords then state.word level argument
  else
    match argument.toList with
    | ['-', '-'] => .ok { state with onlyWords := true }
    | '-' :: '-' :: text => state.longOption level text
    | '-' :: c :: text => state.letters level (c :: text)
    | _ => state.word level argument

end State

/-- What the program is asked to do. -/
inductive Task where
  | inspect (path : String) (transform : String)
  | convert (input : String) (output : Option String)
  deriving DecidableEq, Repr

structure Request where
  listTransforms : Bool
  listTags : Bool
  config : Option String
  debug : Nat
  task : Option Task
  deriving DecidableEq, Repr

/-- Reads all arguments of a command. -/
def readCommand (command : Command) (arguments : List String) : Except Stop Given := do
  let state ← arguments.foldlM (State.argument (some command)) {}
  return (← state.settle (some command)).given

/-- The task of a command, which needs its first word. -/
def taskOf (command : Command) (given : Given) : Except Stop Task :=
  match command, given.words with
  | .inspect, path :: rest => .ok (.inspect path (rest.head?.getD Transform.standard.name))
  | .convert, input :: _ => .ok (.convert input given.output)
  | _, [] => .error .usage

/-- The words after a request for help. -/
def helpOn : List String → Stop
  | [] => .help none
  | [word] =>
    if word = helpWord then .help none
    else
      match Command.ofName? word with
      | some command => .help (some command)
      | none => .usage
  | _ :: _ :: _ => .usage

/-- A request without a command says something else at least. -/
def requestOf (top : Given) : Except Stop Request :=
  if top.isEmpty then .error .usage
  else .ok { listTransforms := top.listTransforms, listTags := top.listTags, config := top.config,
             debug := top.debug, task := none }

/-- A request with a command; what is given at the command goes before what is given at the top. -/
def requestOfCommand (top given : Given) (task : Task) : Request where
  listTransforms := top.listTransforms || given.listTransforms
  listTags := top.listTags || given.listTags
  config := given.config.or top.config
  debug := if given.debug = 0 then top.debug else given.debug
  task := some task

/-- Reads arguments at the top up to the name of a command. -/
def readTop : State → List String → Except Stop Request
  | state, [] => do requestOf (← state.settle none).given
  | state, argument :: rest =>
    if state.awaitsValue || state.onlyWords then do readTop (← state.argument none argument) rest
    else if argument = helpWord then .error (helpOn rest)
    else
      match Command.ofName? argument with
      | some command => do
        let given ← readCommand command rest
        let task ← taskOf command given
        return requestOfCommand (← state.settle none).given given task
      | none => do readTop (← state.argument none argument) rest

/-- Reads the arguments as they stand. -/
def readExactly (arguments : List String) : Except Stop Request := readTop {} arguments

/-- Whether a first argument may leave out the name of the command. -/
def mayLeaveOutCommand (argument : String) : Bool :=
  argument.toList.head? != some '-' && argument != helpWord && (Command.ofName? argument).isNone

/-- Reads the arguments. If they cannot be read as they stand, they may be those of a conversion. -/
def read (arguments : List String) : Except Stop Request :=
  match readExactly arguments with
  | .ok request => .ok request
  | .error stop =>
    match arguments with
    | [] => .error stop
    | first :: _ =>
      if mayLeaveOutCommand first then readExactly (Command.convert.name :: arguments)
      else .error stop

end DocComment.CommandLine
