import UsageGraph.FileTree.Access
import UsageGraph.Task

/-! # File tasks

The operations on file trees as tasks on a state that is a file tree.

* `ofIo`: a refusal of the file system as a fault.
* `absolute`: a path from the root directory on.
* `makeDirectories`: a directory with all directories above it that are missing. What was created
  before a refusal stays.
* `write`, `removeAll`: a file, a directory with all that it holds.
-/

namespace UsageGraph
set_option autoImplicit false

def ofIo {α : Type} : Except IoCause α → Except Fault α
  | .ok a => .ok a
  | .error cause => .error (.io cause)

namespace FileTree

/-- The path from the root directory on, whether or not anything is there. -/
def absolute (path : String) : Task FileTree String :=
  Task.observe fun t => match Path.absolute? t.cwd path with
    | some p => .ok p
    | none => .error (.io .emptyPath)

def write (path : String) (content : Content) : Task FileTree Unit :=
  Task.tryChange fun t => ofIo (t.writeFile path content)

def removeAll (path : String) : Task FileTree Unit :=
  Task.tryChange fun t => ofIo (t.removeDirectory path)

def makeDirectory (path : String) : Task FileTree Unit :=
  Task.tryChange fun t => ofIo (t.createDirectory path)

/-- A directory that is there already is as good as a new one. -/
def settle (path : String) (f : Fault) : Task FileTree Unit := do
  if (← Task.state).isDirectory path then return () else Task.fail f

/-- Creates the first path, after those behind it, each of which is right above the one before. -/
def makeFrom : List String → Task FileTree Unit
  | [] => Task.fail (.io .noRoot)
  | path :: above =>
    if Path.parts path = [] then return ()
    else (makeDirectory path).recover fun
      | .io .notFound => do
        makeFrom above
        (makeDirectory path).recover (settle path)
      | f => settle path f

def makeDirectories (path : String) : Task FileTree Unit := makeFrom (Path.ancestors path)

end FileTree
end UsageGraph
