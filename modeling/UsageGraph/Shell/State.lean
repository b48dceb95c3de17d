import UsageGraph.Command.Program
import UsageGraph.Shell.Script
import UsageGraph.Table

/-! # A running shell

* `Sink`, `Channels`: where the output of a command goes.
* `Ending`: how a shell ends before its script does.
* `Shell`: a shell while it runs, with what was printed so far and the time that is left.
* `Shell.write`, `Shell.complain`, `Shell.spend`: printing a text and letting time pass.
-/

namespace UsageGraph
open Text
set_option autoImplicit false

namespace Shell

inductive Sink where
  /-- A stream that is collected, by its number. -/
  | stream (index : Nat)
  | file (at_ : Location)
  | nowhere
  deriving DecidableEq, Repr

structure Channels where
  out : Sink
  err : Sink
  deriving DecidableEq, Repr

inductive Ending where
  | exited
  | killed (signal : Nat)
  /-- The time was over. -/
  | expired
  deriving DecidableEq, Repr

end Shell

structure Shell where
  tree : FileTree
  /-- What the shell was started as. -/
  name : String
  arguments : List String
  bindings : Table String
  /-- The names of the variables that programs are started with. -/
  exported : List String
  /-- The exit status of the last command. -/
  status : Nat
  /-- What is still to be read from the input. -/
  input : Bytes
  streams : List Bytes
  nanosLeft : Nat
  /-- Whether a command that fails ends the shell. -/
  strict : Bool
  ending : Option Shell.Ending

namespace Shell
variable (s : Shell)

/-! ## Statuses and endings -/

def succeed : Shell := { s with status := 0 }

def fail (status : Nat) : Shell := { s with status := status }

def finish (ending : Ending) : Shell := { s with ending := some ending }

def exit (status : Nat) : Shell := { s with status := status % 256, ending := some .exited }

/-- A shell that has run out of time goes no further. -/
def spend (nanos : Nat) : Shell :=
  if s.nanosLeft ≤ nanos then { s with nanosLeft := 0, ending := some .expired }
  else { s with nanosLeft := s.nanosLeft - nanos }

/-! ## Output -/

/-- The bytes in a file, none if there is no such file. -/
def bytesAt (t : FileTree) (at_ : Location) : Bytes :=
  match t.get? at_ with
  | some (.file c) => c.bytes
  | _ => []

def writeBytes (sink : Sink) (bytes : Bytes) : Shell :=
  match sink with
  | .stream i => { s with streams := s.streams.modify i (· ++ bytes) }
  | .file at_ =>
    { s with tree := s.tree.put at_ (.file (.ofBytes (bytesAt s.tree at_ ++ bytes))) }
  | .nowhere => s

def write (sink : Sink) (text : String) : Shell := s.writeBytes sink (encode text)

/-- The shell itself says what went wrong in a command. -/
def complain (c : Channels) (text : String) (status : Nat) : Shell :=
  (s.write c.err (s.name ++ ": 1: " ++ text ++ "\n")).fail status

/-- A program says what went wrong with one of its arguments. -/
def report (c : Channels) (program argument : String) (cause : IoCause) : Shell :=
  (s.write c.err (program ++ ": " ++ argument ++ ": " ++ cause.wording ++ "\n")).fail 1

/-! ## Parameters -/

/-- The number that stands for the shell among all programs. -/
def ownNumber : String := "1"

def argument? (n : Nat) : Option String := if n = 0 then some s.name else s.arguments[n - 1]?

/-- The value of a parameter; one that is not set has none. -/
def parameter? (name : String) : Option String :=
  match name with
  | "#" => some (toString s.arguments.length)
  | "?" => some (toString s.status)
  | "$" => some ownNumber
  | "!" => none
  | "-" => some ""
  | "@" => some (join " " s.arguments)
  | "*" => some (join " " s.arguments)
  | name =>
    match name.toNat? with
    | some n => s.argument? n
    | none => s.bindings.get? name

def assign (name value : String) : Shell := { s with bindings := s.bindings.insert name value }

def share (name : String) : Shell := { s with exported := name :: s.exported }

/-- The variables that a program gets to see. -/
def environment : Table String := s.bindings.filter fun p => p.1 ∈ s.exported

end Shell
end UsageGraph
