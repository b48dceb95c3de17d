import UsageGraph.Document.Printing
import UsageGraph.FileTree.Tasks
import UsageGraph.Package.Id
import UsageGraph.Reference.Basic

/-! # Reference dumps

* `dumpName`: the name of the file that holds the references of a repository.
* `dumpReferences`: writes that file into a directory, which is created where it is missing.
-/

namespace UsageGraph
set_option autoImplicit false

def dumpName (repo : PackageId) : String := repo.owner ++ "_" ++ repo.name ++ ".json"

def dumpText (references : List Reference) : String :=
  (Document.list (references.map Reference.toDocument)).pretty

/-- The path of the dump. -/
def dumpReferences (dir : String) (repo : PackageId) (references : List Reference) :
    Task FileTree String := do
  FileTree.makeDirectories dir
  let path := Path.join dir (dumpName repo)
  FileTree.write path (.text (dumpText references))
  return path

end UsageGraph
