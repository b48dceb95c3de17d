import UsageGraph.Command.Program
import UsageGraph.Git.Basic

/-! # Git among the programs of a machine

* `GitProgram.ofPrograms`: git as the machine starts it, or does not.
-/

namespace UsageGraph
open Text
set_option autoImplicit false

namespace GitProgram

/-- Git is given an hour. -/
def limit : Duration := .ofSeconds 3600

def exitCode : ExitStatus → Nat
  | .code n => n
  | .signal n => 128 + n

/-- A run that was refused is not asked for. -/
def ofEnd : ProgramEnd → GitRun
  | .refused cause => ⟨127, "", cause.message⟩
  | .expired => ⟨124, "", ""⟩
  | .ended r => ⟨exitCode r.status, decodeLossy r.stdout, decodeLossy r.stderr⟩

def invocation (call : GitCall) : Invocation := ⟨call.cwd, "git", call.args, limit⟩

def ofPrograms (p : Programs) : GitProgram where
  respond _ t call :=
    let (e, t) := p.start (invocation call) t
    (ofEnd e, t)
  refusal? _ t call :=
    match (p.start (invocation call) t).1 with
    | .refused cause => some cause
    | _ => none

end GitProgram
end UsageGraph
