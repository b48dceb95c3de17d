import UsageGraph.FileTree.Basic

/-! # Changes between file trees

* `Change`: one step from a tree to another.
* `FileTree.changes`: the steps that lead from one tree to a later one, what is gone first. A
  directory goes after what it holds and comes before what it holds.
* `FileTree.ofEntries`: a working directory with what is below it, and all directories above it.
-/

namespace UsageGraph
set_option autoImplicit false

inductive Change where
  | removed (at_ : Location) (e : Entry)
  | placed (at_ : Location) (e : Entry)
  deriving DecidableEq, Repr

namespace FileTree

/-- An entry is gone also where a file is at the place of a directory, or the other way round. -/
def gone (now : FileTree) (p : Location × Entry) : Bool :=
  match p.2, now.get? p.1 with
  | .file _, some (.file _) => false
  | .directory, some .directory => false
  | _, _ => true

def changes (before now : FileTree) : List Change :=
  ((before.entries.filter now.gone).map fun p => Change.removed p.1 p.2).reverse ++
    (now.entries.filter fun p => before.get? p.1 ≠ some p.2).map fun p => .placed p.1 p.2

/-- The directories from the root directory down to a location. -/
def putDirectories (t : FileTree) (at_ : Location) : FileTree :=
  (List.range at_.length).foldl (fun t n => t.put (at_.take (n + 1)) .directory) t

def partName? : Path.Part → Option String
  | .name s => some (String.ofList s)
  | _ => none

def ofEntries (cwd : String) (below : List (Location × Entry)) : FileTree :=
  let at_ := (Path.parts cwd).filterMap partName?
  below.foldl (fun t p => t.put (at_ ++ p.1) p.2) ((empty cwd).putDirectories at_)

end FileTree
end UsageGraph
