import UsageGraph.Command.Program
import UsageGraph.Task

/-! # Running a command

* `ProgramRun.output`: what a finished program printed. A program that says anything on its error
  channel has failed, and so has one that ends with anything but success.
* `runCommand`: starts a program in a directory and gives what it printed.
-/

namespace UsageGraph
open Text
set_option autoImplicit false

/-- What is said on the error channel outweighs the exit status. -/
def ProgramRun.output (r : ProgramRun) (command : String) : Except Fault String :=
  let complaint := trim (decodeLossy r.stderr)
  if complaint ≠ "" then .error (.subprocess command complaint)
  else if r.status ≠ .success then
    .error (.subprocess command ("exited with " ++ r.status.message))
  else .ok (decodeLossy r.stdout)

def ProgramEnd.output (command : String) (limit : Duration) : ProgramEnd → Except Fault String
  | .refused cause => .error (.subprocess command ("failed to spawn: " ++ cause.message))
  | .expired => .error (.timeout command limit)
  | .ended r => r.output command

/-- What the program did to the file tree stays, also if it failed. -/
def runCommand (p : Programs) (cwd : String) (command : List String) (limit : Duration) :
    Task FileTree String :=
  match command with
  | [] => Task.fail (.config "empty command")
  | program :: args => fun t =>
    let (ending, t) := p.start ⟨cwd, program, args, limit⟩ t
    ⟨ending.output (join " " command) limit, t, []⟩

end UsageGraph
