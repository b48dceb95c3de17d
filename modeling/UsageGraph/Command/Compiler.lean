import UsageGraph.Command.Run
import UsageGraph.Command.Template
import UsageGraph.Crawl.Run
import UsageGraph.FileTree.Tasks
import UsageGraph.Package.Manifest

/-! # The compiler behind a command

* `compileFile`: runs a configured command for one file and scrapes what it prints.
* `clearArtifacts`: gives a checkout an empty artifact directory.
* `commandCompiler`: the two of them as a compiler.
-/

namespace UsageGraph
set_option autoImplicit false

/-- A command that fails has failed to compile the file. -/
def asCompileFailure (file : String) : Fault → Fault
  | .subprocess _ stderr => .compileFailure file stderr
  | f => f

def compileFile (p : Programs) (command : List String) (limit : Duration) (workdir file : String) :
    Task FileTree Report := do
  let workdir ← FileTree.absolute workdir
  let command := expandCommand command workdir (Path.join workdir file)
  let output ← (runCommand p workdir command limit).recover fun f =>
    Task.fail (asCompileFailure file f)
  Task.reportAll (scrapeEvents output)
  return scrape output workdir

/-! ## Artifacts -/

def artifactsPath (workdir : String) : String :=
  Path.join (Path.join workdir buildDir) "build-artifacts"

/-- A directory that is not there need not be removed. -/
def discard (path : String) : Task FileTree Unit :=
  (FileTree.removeAll path).recover fun f => if f = .io .notFound then return () else Task.fail f

def clearArtifacts (workdir : String) : Task FileTree Unit := do
  discard (artifactsPath workdir)
  FileTree.makeDirectories (artifactsPath workdir)

def commandCompiler (p : Programs) (command : List String) (limit : Duration) :
    Compiler FileTree where
  compile := compileFile p command limit
  clearCache := clearArtifacts

end UsageGraph
