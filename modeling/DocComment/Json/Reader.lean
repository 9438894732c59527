import DocComment.Json.Token

/-!
# Reading JSON values

The reader takes tokens and keeps the arrays and objects that are still open in a stack, so nesting
costs no recursion. At most `depth` of them are held: in strict reading one more is a fault, and in
lenient reading it is a value that is not held.
-/

namespace DocComment.Json

inductive ReadError where
  /-- The text ends too early. -/
  | endsEarly
  | malformed
  deriving DecidableEq, Repr

def ReadError.message : ReadError → String
  | endsEarly => "EOF while parsing a value"
  | malformed => "malformed JSON"

/-- Strict or lenient, and how many arrays and objects are held inside each other. -/
structure Reading where
  lenient : Bool
  depth : Nat := 127
  deriving DecidableEq, Repr

namespace Reading

def strict : Reading := { lenient := false }

def lax : Reading := { lenient := true }

end Reading

/-- An open array or object: what it holds so far, last first, and the name of the member to
come. -/
inductive Frame where
  | array (items : List Json)
  | object (members : Option (List (String × Json))) (name : Option String)
  deriving Repr

namespace Frame

def add (value : Json) : Frame → Frame
  | array items => array (value :: items)
  | object members name =>
    object (members.bind fun members => name.map fun name => (name, value) :: members) none

def setName (name : Option String) : Frame → Frame
  | array items => array items
  | object members _ => object members name

def close : Frame → Json
  | array items => .arr items.reverse
  | object (some members) _ => .obj members.reverse
  | object none _ => .unheld

end Frame

/-- What the next token may be. -/
inductive Expected where
  | value
  | valueOrEnd
  | name
  | nameOrEnd
  | colon
  | separator
  deriving DecidableEq, Repr

def Fault.error : Fault → ReadError
  | .malformed => .malformed
  | .cut | .cutString => .endsEarly

/-- Where a name has to stand, only a string can be cut. -/
def Fault.nameError : Fault → ReadError
  | .cutString => .endsEarly
  | .cut | .malformed => .malformed

/-- A complete value, or what is open and what may come next. -/
inductive Progress where
  | done (value : Json)
  | more (stack : List Frame) (expected : Expected)
  deriving Repr

/-- A value where the innermost open frame expects one. -/
def Progress.value (value : Json) : List Frame → Progress
  | [] => done value
  | frame :: outer => more (frame.add value :: outer) .separator

/-- Whether fewer than `n` frames are open; looks at no more than that. -/
def fewerThan : Nat → List Frame → Bool
  | 0, _ => false
  | _ + 1, [] => true
  | n + 1, _ :: rest => fewerThan n rest

@[simp] theorem fewerThan_iff (n : Nat) (stack : List Frame) :
    fewerThan n stack = true ↔ stack.length < n := by
  induction n generalizing stack with
  | zero => simp [fewerThan]
  | succ n ih =>
    cases stack with
    | nil => simp [fewerThan]
    | cons frame rest => simp [fewerThan, ih]

namespace Reading

/-- The value of a closed array or object that stood inside `outer` others. -/
def closed (reading : Reading) (frame : Frame) (outer : List Frame) : Progress :=
  .value (if fewerThan reading.depth outer then frame.close else .unheld) outer

/-- One more array or object inside the open ones. -/
def enter (reading : Reading) (frame : Frame) (stack : List Frame) (expected : Expected) :
    Except ReadError Progress :=
  if fewerThan reading.depth stack || reading.lenient then .ok (.more (frame :: stack) expected)
  else .error .malformed

/-- A token where a value is expected. -/
def startValue (reading : Reading) (stack : List Frame) : Token → Except ReadError Progress
  | .scalar value => .ok (.value value stack)
  | .string text => .ok (.value (text.elim .unheld .str) stack)
  | .openArray => reading.enter (.array []) stack .valueOrEnd
  | .openObject => reading.enter (.object (some []) none) stack .nameOrEnd
  | .broken fault => .error fault.error
  | _ => .error .malformed

/-- A token where the name of a member is expected. -/
def startName : List Frame → Token → Except ReadError Progress
  | frame :: outer, .string name => .ok (.more (frame.setName name :: outer) .colon)
  | _, .broken fault => .error fault.nameError
  | _, _ => .error .malformed

/-- Takes one token, with the open arrays and objects inside out. -/
def step (reading : Reading) (stack : List Frame) :
    Expected → Token → Except ReadError Progress
  | .value, token => reading.startValue stack token
  | .valueOrEnd, token =>
    match token, stack with
    | .closeArray, frame :: outer => .ok (reading.closed frame outer)
    | token, stack => reading.startValue stack token
  | .name, token => startName stack token
  | .nameOrEnd, token =>
    match token, stack with
    | .closeObject, frame :: outer => .ok (reading.closed frame outer)
    | token, stack => startName stack token
  | .colon, .colon => .ok (.more stack .value)
  | .separator, token =>
    match token, stack with
    | .comma, .array _ :: _ => .ok (.more stack .value)
    | .comma, .object _ _ :: _ => .ok (.more stack .name)
    | .closeArray, .array items :: outer => .ok (reading.closed (.array items) outer)
    | .closeObject, .object members name :: outer =>
      .ok (reading.closed (.object members name) outer)
    | _, _ => .error .malformed
  | .colon, _ => .error .malformed

/-- Reads on to the end of the outermost value, and leaves the tokens behind it. -/
def readFrom (reading : Reading) (stack : List Frame) (expected : Expected) :
    List Token → Except ReadError (Json × List Token)
  | [] => .error .endsEarly
  | token :: rest =>
    match reading.step stack expected token with
    | .error error => .error error
    | .ok (.done value) => .ok (value, rest)
    | .ok (.more stack expected) => readFrom reading stack expected rest

/-- Reads the value at the start of a text, and leaves the tokens behind it. -/
def readFirst (reading : Reading) (text : Text) :
    Except ReadError (Json × List Token) :=
  readFrom reading [] .value (Token.ofText reading.lenient text)

/-- Reads a text that holds one value and nothing else. -/
def read (reading : Reading) (text : Text) : Except ReadError Json :=
  match readFirst reading text with
  | .ok (value, []) => .ok value
  | .ok (_, _ :: _) => .error .malformed
  | .error error => .error error

theorem read_eq_ok_iff {reading : Reading} {text : Text} {json : Json} :
    reading.read text = .ok json ↔ reading.readFirst text = .ok (json, []) := by
  rw [read]
  cases hfirst : reading.readFirst text with
  | error error => simp
  | ok first =>
    obtain ⟨value, rest⟩ := first
    cases rest <;> simp

end Reading

end DocComment.Json
