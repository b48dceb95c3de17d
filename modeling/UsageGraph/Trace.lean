/-! # Trace events

What an operation reports while it runs: a level and a message.

* `Level.shows`: whether a report at this level appears when events of a given level are asked for.
* `Event`: one report, with a constructor function per level.
-/

namespace UsageGraph
set_option autoImplicit false

inductive Level where
  | error
  | warn
  | info
  | debug
  deriving DecidableEq, Repr

/-- Errors are the most severe level, debug messages the least. -/
def Level.rank : Level → Nat
  | .error => 0
  | .warn => 1
  | .info => 2
  | .debug => 3

def Level.shows (asked level : Level) : Bool := level.rank ≤ asked.rank

def Level.name : Level → String
  | .error => "ERROR"
  | .warn => "WARN"
  | .info => "INFO"
  | .debug => "DEBUG"

structure Event where
  level : Level
  message : String
  deriving DecidableEq, Repr

namespace Event

def error (message : String) : Event := ⟨.error, message⟩
def warn (message : String) : Event := ⟨.warn, message⟩
def info (message : String) : Event := ⟨.info, message⟩
def debug (message : String) : Event := ⟨.debug, message⟩

end Event
end UsageGraph
