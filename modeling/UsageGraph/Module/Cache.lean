import UsageGraph.FileTree.Tasks
import UsageGraph.Module.Header

/-! # The module cache

The module that a file declares, for files that have been read already. A fingerprint stands for
the state of a checkout; a file that is asked for under another fingerprint is read again.

* `ModuleCache`: the modules by the components of the absolute path.
* `ModuleCache.moduleOf`: the module of a file.
* `ModuleCache.invalidateUnder`: forgets the files below a directory.
-/

namespace UsageGraph
set_option autoImplicit false

structure CachedModule where
  fingerprint : String
  module : Option String
  deriving DecidableEq, Repr

/-- At most one entry for each path. -/
structure ModuleCache where
  entries : List (List Path.Part × CachedModule)
  deriving Repr

namespace ModuleCache

def empty : ModuleCache := ⟨[]⟩

def size (c : ModuleCache) : Nat := c.entries.length

def get? (c : ModuleCache) (key : List Path.Part) : Option CachedModule := c.entries.lookup key

def insert (c : ModuleCache) (key : List Path.Part) (m : CachedModule) : ModuleCache :=
  ⟨(key, m) :: c.entries.filter fun p => p.1 ≠ key⟩

/-- What is known about a path at a fingerprint. -/
def hit? (c : ModuleCache) (key : List Path.Part) (fingerprint : String) : Option CachedModule :=
  (c.get? key).filter fun m => m.fingerprint == fingerprint

def undeclaredEvents (path : String) : Option String → List Event
  | some _ => []
  | none => [.warn ("Couldn't get module of file: " ++ path)]

/-- A file that cannot be read leaves no entry. -/
def readModule (t : FileTree) (path fingerprint : String) : Task ModuleCache (Option String) := do
  let source ← Task.ofResult (ofIo (t.readText path))
  let module := declaredModule? source
  Task.reportAll (undeclaredEvents path module)
  Task.change fun c => c.insert (Path.parts path) ⟨fingerprint, module⟩
  return module

def moduleOf (t : FileTree) (path fingerprint : String) : Task ModuleCache (Option String) := do
  match Path.absolute? t.cwd path with
  | none => Task.fail (.io .emptyPath)
  | some path =>
    match (← Task.state).hit? (Path.parts path) fingerprint with
    | some m => return m.module
    | none => readModule t path fingerprint

def invalidateUnder (c : ModuleCache) (cwd root : String) : ModuleCache :=
  match Path.absolute? cwd root with
  | none => c
  | some root => ⟨c.entries.filter fun p => !(Path.parts root).isPrefixOf p.1⟩

end ModuleCache
end UsageGraph
