import UsageGraph.FileTree.Tasks
import UsageGraph.History.Commit

/-! # Running git

* `GitCall`, `GitRun`: what git is called with, and how a run ends.
* `GitProgram`: how git answers a call and what it does to the file tree. The answer may depend on the
  calls before. The system may refuse to start git at all.
* `Workspace`: a file tree and the calls made so far.
* `Git.enter`: a call in a directory, which has to be there, or why it cannot be made.
* `Git.start`: makes the call. `Git.run`: its output, where it succeeds.
-/

namespace UsageGraph
open Text
set_option autoImplicit false

structure GitCall where
  /-- The directory that git runs in. -/
  cwd : String
  args : List String
  deriving DecidableEq, Repr

structure GitRun where
  exit : Nat
  stdout : String
  stderr : String
  deriving DecidableEq, Repr

structure GitProgram where
  respond : List GitCall → FileTree → GitCall → GitRun × FileTree
  /-- Why git cannot be started for a call, if it cannot. -/
  refusal? : List GitCall → FileTree → GitCall → Option IoCause := fun _ _ _ => none
  /-- How the program that calls git was built, which decides on the times of its log. -/
  overflow : Overflow := .panics

structure Workspace where
  tree : FileTree
  /-- In the order in which they were made. -/
  gitCalls : List GitCall

namespace Workspace

def onTree {α : Type} (t : Task FileTree α) : Task Workspace α :=
  t.onPart tree fun w tree => { w with tree := tree }

end Workspace

namespace Git
variable (g : GitProgram)

/-- The call as it is made. Null characters cannot be handed over; they are noticed first, then the
directory is entered, and then git is looked for. -/
def enter (w : Workspace) (cwd : String) (args : List String) : Except IoCause GitCall :=
  if (cwd :: args).any fun a => '\x00' ∈ a.toList then .error .nullInCommand
  else
    match w.tree.directory cwd with
    | .error cause => .error cause
    | .ok dir =>
      match g.refusal? w.gitCalls w.tree ⟨dir, args⟩ with
      | some cause => .error cause
      | none => .ok ⟨dir, args⟩

/-- A call that cannot be started leaves no trace. -/
def start (cwd : String) (args : List String) : Task Workspace (Except IoCause GitRun) := fun w =>
  match enter g w cwd args with
  | .error cause => ⟨.ok (.error cause), w, []⟩
  | .ok call =>
    let (r, t) := g.respond w.gitCalls w.tree call
    ⟨.ok (.ok r), ⟨t, w.gitCalls ++ [call]⟩, []⟩

def run (cwd : String) (args : List String) : Task Workspace String := do
  match ← start g cwd args with
  | .error cause =>
    Task.fail (.git ("Failed to run git " ++ args.headD "" ++ ": " ++ cause.message))
  | .ok r =>
    if r.exit = 0 then return r.stdout
    else Task.fail (.git ("git " ++ join " " args ++ " failed: " ++ trim r.stderr))

end Git
end UsageGraph
