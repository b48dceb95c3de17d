import UsageGraph.CommandLine.Run
import UsageGraph.FileTree.Changes
import UsageGraph.Git.Machine
import UsageGraph.Shell.Run

/-! # The command line

The current directory is read into a file tree, the program is run on it, and what it changed is
written back.
-/

namespace UsageGraph
set_option autoImplicit false

/-! ## The directory -/

/-- What is neither a file nor a directory is passed over. -/
partial def readBelow (dir : IO.FS.DirEntry) (at_ : Location) : IO (List (Location × Entry)) := do
  let mut entries := []
  for e in (← dir.path.readDir) do
    let inner := at_ ++ [e.fileName]
    match (← e.path.metadata).type with
    | .dir => entries := entries ++ (inner, .directory) :: (← readBelow e inner)
    | .file =>
      let bytes ← IO.FS.readBinFile e.path
      entries := entries ++ [(inner, .file (.ofBytes bytes.toList))]
    | _ => pure ()
  return entries

def applyChange : Change → IO Unit
  | .removed at_ .directory => IO.FS.removeDir (FileTree.pathOf at_)
  | .removed at_ (.file _) => IO.FS.removeFile (FileTree.pathOf at_)
  | .placed at_ .directory => IO.FS.createDirAll (FileTree.pathOf at_)
  | .placed at_ (.file c) => IO.FS.writeBinFile (FileTree.pathOf at_) ⟨c.bytes.toArray⟩

/-! ## The program -/

def machine : Machine := ⟨.ofPrograms .standard, .standard⟩

end UsageGraph

open UsageGraph in
def main (args : List String) : IO UInt32 := do
  let cwd ← IO.currentDir
  let before := FileTree.ofEntries cwd.toString (← readBelow ⟨cwd, ""⟩ [])
  let (t, w, _) := runProgram machine args ⟨before, []⟩
  for change in before.changes w.tree do
    applyChange change
  (← IO.getStdout).putStr t.stdout
  (← IO.getStderr).putStr t.stderr
  return t.exit.toUInt32
