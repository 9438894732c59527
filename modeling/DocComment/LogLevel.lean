/-!
# Log levels

Log levels, from the one that tells least to the one that tells most.
-/

namespace DocComment

inductive LogLevel where
  | error
  | warn
  | info
  | debug
  | trace
  deriving DecidableEq, Repr

namespace LogLevel

def all : List LogLevel := [error, warn, info, debug, trace]

def name : LogLevel → String
  | error => "error"
  | warn => "warn"
  | info => "info"
  | debug => "debug"
  | trace => "trace"

def ofName? (name : String) : Option LogLevel := all.find? fun level => level.name == name

@[simp] theorem ofName?_name (level : LogLevel) : ofName? level.name = some level := by
  cases level <;> rfl

/-- The next level that tells more; there is none after the last. -/
def next : LogLevel → LogLevel
  | error => warn
  | warn => info
  | info => debug
  | debug => trace
  | trace => trace

def raised (level : LogLevel) : Nat → LogLevel
  | 0 => level
  | steps + 1 => raised level.next steps

@[simp] theorem raised_trace (steps : Nat) : raised trace steps = trace := by
  induction steps with
  | zero => rfl
  | succ steps ih => exact ih

/-- Whether warnings are told. -/
def tellsWarnings (level : LogLevel) : Bool := level != error

theorem tellsWarnings_raised_succ (level : LogLevel) (steps : Nat) :
    (level.raised (steps + 1)).tellsWarnings = true := by
  induction steps generalizing level with
  | zero => cases level <;> rfl
  | succ steps ih => exact ih level.next

end LogLevel

end DocComment
