import UsageGraph.FileTree.Access
import UsageGraph.Duration

/-! # Programs

What is known of the programs that a machine can start, as far as an import has to know it.

* `ExitStatus`: a code of the program's own, or the signal that ended it.
* `Invocation`: a program with its arguments, where it is to run and how long it may take.
* `ProgramEnd`: how an invocation ends.
* `Programs`: how a machine answers invocations, and what they do to the file tree.
-/

namespace UsageGraph
open Text
set_option autoImplicit false

/-! ## Ends -/

inductive ExitStatus where
  | code (n : Nat)
  | signal (n : Nat)
  deriving DecidableEq, Repr

/-- The signals from number one on. -/
def signalNames : List String :=
  ["HUP", "INT", "QUIT", "ILL", "TRAP", "ABRT", "BUS", "FPE", "KILL", "USR1", "SEGV", "USR2", "PIPE",
    "ALRM", "TERM", "STKFLT", "CHLD", "CONT", "STOP", "TSTP", "TTIN", "TTOU", "URG", "XCPU", "XFSZ",
    "VTALRM", "PROF", "WINCH", "IO", "PWR", "SYS"]

def signalName? (n : Nat) : Option String := if n = 0 then none else signalNames[n - 1]?

namespace ExitStatus

def success : ExitStatus := code 0

def message : ExitStatus → String
  | code n => "exit status: " ++ toString n
  | signal n => "signal: " ++ toString n ++
    match signalName? n with
    | some name => " (SIG" ++ name ++ ")"
    | none => ""

end ExitStatus

structure ProgramRun where
  status : ExitStatus
  stdout : Bytes
  stderr : Bytes
  deriving DecidableEq, Repr

inductive ProgramEnd where
  /-- The program could not be started. -/
  | refused (cause : IoCause)
  /-- The program was still running when its time was over. -/
  | expired
  | ended (run : ProgramRun)
  deriving DecidableEq, Repr

/-! ## Machines -/

structure Invocation where
  /-- The directory that the program runs in. -/
  cwd : String
  program : String
  args : List String
  limit : Duration
  deriving DecidableEq, Repr

structure Programs where
  start : Invocation → FileTree → ProgramEnd × FileTree

end UsageGraph
