import UsageGraph.Git.Basic
import UsageGraph.History.Extraction
import UsageGraph.Package.Loading

/-! # Repositories under git

* `Git.openAt`: checks that a path is in a work tree.
* `Git.cloneOrPull`: a fresh clone, or the tip of the default branch in an existing one.
* `Git.head`, `Git.currentBranch`, `Git.log`, `Git.isClean`: what is checked out.
* `Git.withRestoredCheckout`: a task after which what was checked out is asked for again.
* `Git.historySource`: a repository as the source of a history.
-/

namespace UsageGraph.Git
open Text
set_option autoImplicit false

variable (g : GitProgram)

def openAt (path : String) : Task Workspace Unit := do
  match ← start g path ["rev-parse", "--is-inside-work-tree"] with
  | .error cause => Task.fail (.git ("Failed to run git: " ++ cause.message))
  | .ok r =>
    if r.exit = 0 then return () else Task.fail (.git ("Not a git repository: " ++ path))

/-! ## Cloning -/

/-- The default branch as a name of the remote repository. -/
def remoteHead (path : String) : Task Workspace String := do
  return trim (← run g path ["symbolic-ref", "--short", "refs/remotes/origin/HEAD"])

/-- The default branch, which is looked up first where it is not known. -/
def knownRemoteHead (path : String) : Task Workspace String :=
  (remoteHead g path).recover fun _ => do
    let _ ← run g path ["remote", "set-head", "origin", "--auto"]
    remoteHead g path

def branchOf (remote : String) : String :=
  String.ofList ((stripPrefix? "origin/".toList remote.toList).getD remote.toList)

/-- Works from any state of the checkout. -/
def refresh (path : String) : Task Workspace Unit := do
  let _ ← run g path ["fetch", "--quiet", "origin"]
  let remote ← knownRemoteHead g path
  let _ ← run g path ["checkout", "--force", "--quiet", "-B", branchOf remote, remote]

def clone (url path : String) : Task Workspace Unit := do
  match Path.parent? path with
  | some above => Workspace.onTree (FileTree.makeDirectories above)
  | none => return ()
  let _ ← run g ((Path.parent? path).getD ".") ["clone", "--quiet", url, path]

def isClone (t : FileTree) (path : String) : Bool := t.isDirectory (Path.join path ".git")

def cloneOrPull (url path : String) : Task Workspace Unit := do
  if isClone (← Task.state).tree path then
    Task.report (.debug ("refreshing " ++ url ++ " in " ++ path))
    openAt g path
    refresh g path
  else
    Task.report (.debug ("cloning " ++ url ++ " into " ++ path))
    clone g url path
    openAt g path

/-! ## The checkout -/

def head (path : String) : Task Workspace String :=
  return trim (← run g path ["rev-parse", "HEAD"])

/-- No branch may be checked out. -/
def currentBranch (path : String) : Task Workspace (Option String) := do
  let branch := trim (← run g path ["rev-parse", "--abbrev-ref", "HEAD"])
  return if branch = "HEAD" ∨ branch = "" then none else some branch

def logArgs : List String := ["log", "--reverse", "--format=%H %ct"]

def commitsOf (o : Overflow) (log : String) : Except Fault (List Commit) :=
  match parseLog o log with
  | some commits => .ok commits
  | none => .error (.panicked productOverflow)

/-- The oldest commit first. -/
def log (path : String) : Task Workspace (List Commit) := do
  Task.ofResult (commitsOf g.overflow (← run g path logArgs))

def checkoutRef (path rev : String) : Task Workspace Unit := do
  let _ ← run g path ["checkout", "--force", "--quiet", rev]

def isClean (path : String) : Task Workspace Bool :=
  return allBlank (← run g path ["status", "--porcelain"])

/-- What names the checkout: the branch, or else the commit. -/
def checkoutName (path : String) : Task Workspace String := do
  match ← currentBranch g path with
  | some branch => return branch
  | none => head g path

def restore (path initial : String) : Task Workspace Unit :=
  (checkoutRef g path initial).recover fun f =>
    Task.report (.warn ("Couldn't restore " ++ path ++ " to " ++ initial ++ ": " ++ f.message))

/-- The checkout is restored whether or not the task succeeds. A panic is no end of the task: it
passes by what was to come after. -/
def withRestoredCheckout {α : Type} (path : String) (t : Task Workspace α) : Task Workspace α := do
  let initial ← checkoutName g path
  let result ← t.attempt
  unless Task.brokenOff result do restore g path initial
  Task.ofResult result

/-! ## History -/

def readManifest (path : String) : Task Workspace (Option Manifest) := do
  let t := (← Task.state).tree
  Task.reportAll (Manifest.readOptionalEvents t path)
  Task.ofResult (Manifest.readOptional t path)

def historySource (path : String) : HistorySource Workspace where
  commits := log g path
  checkout c := checkoutRef g path c.hash
  manifest := readManifest path

end UsageGraph.Git
