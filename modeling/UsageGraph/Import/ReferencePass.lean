import UsageGraph.Command.Run
import UsageGraph.Command.Template
import UsageGraph.Config.Basic
import UsageGraph.Crawl.Run
import UsageGraph.Package.Loading
import UsageGraph.Reference.Assembly
import UsageGraph.Version.Defect
import UsageGraph.Walk.Sources

/-! # The references of a checkout

* `Site`: a file tree, and what is known of the modules in it.
* `ReferencePass`: what a pass is told, with the programs and the compiler that it may use.
* `ReferencePass.run`: checks that the compiler understands the checkout, installs what it depends
  on, compiles it and gives the references of all files that could be compiled.
-/

namespace UsageGraph
open Text
set_option autoImplicit false

structure Site where
  tree : FileTree
  modules : ModuleCache

namespace Site

def onTree {α : Type} (t : Task FileTree α) : Task Site α :=
  t.onPart tree fun s tree => { s with tree := tree }

end Site

structure ReferencePass where
  config : Config
  programs : Programs
  compiler : Compiler FileTree

namespace ReferencePass
variable (p : ReferencePass)

/-! ## The checks -/

/-- The version of the language that the compiler implements. -/
def language : Except Fault Version :=
  let text := p.config.compiler.languageVersion
  (Version.read text).mapError fun defect =>
    .config ("invalid compiler.language_version \"" ++ text ++ "\": " ++ defect.message)

/-- The manifest has to be there and has to allow the language of the compiler. -/
def check (workdir : String) (t : FileTree) : Except Fault Unit := do
  let m ← Manifest.read t workdir
  m.checkLanguage (← p.language)

/-! ## The installation -/

def installCommand (cwd workdir : String) : List String :=
  expandCommand (anchorProgram p.config.compiler.installCommand cwd) workdir ""

/-- An installation that fails may still have done enough. -/
def install (repo : PackageId) (workdir : String) : Task FileTree Unit := do
  if p.config.compiler.installCommand = [] then return ()
  let command := p.installCommand (← Task.state).cwd workdir
  match ← (runCommand p.programs workdir command p.config.compiler.timeout).attempt with
  | .ok _ => return ()
  | .error f =>
    Task.report (.warn (repo.fullName ++ ": dependency install reported: " ++ f.message))

/-! ## The references -/

def crawlEvents (repo : PackageId) (c : Crawl) : List Event :=
  if c.failed = [] then []
  else [.info (repo.fullName ++ ": " ++ toString c.failed.length ++ " file(s) failed to compile")]

def sourcesEvent (repo : PackageId) (files : List String) : Event :=
  .debug (repo.fullName ++ ": " ++ toString files.length ++ " source file(s)")

/-- The uses in all files that could be compiled. -/
def uses (repo : PackageId) (workdir : String) : Task FileTree (List ExternalUse) := do
  let files := walk (← Task.state) workdir
  Task.report (sourcesEvent repo files)
  let c ← crawl p.compiler workdir files
  Task.reportAll (crawlEvents repo c)
  return c.uses

def assembly (repo : PackageId) (workdir commit : String) (installed : Table String) : Assembly :=
  .of commit p.config.host ⟨repo, workdir, installed⟩

/-- Assembles with packages that are loaded afresh. -/
def assembleAll (a : Assembly) (us : List ExternalUse) : Task Site (List Reference) := do
  let t := (← Task.state).tree
  (a.assemble t us).onPart (fun s => ⟨[], s.modules⟩) fun s k => { s with modules := k.modules }

def run (repo : PackageId) (workdir commit : String) : Task Site (List Reference) := do
  let workdir ← Site.onTree (FileTree.absolute workdir)
  Site.onTree (Task.observe (p.check workdir))
  Site.onTree (p.install repo workdir)
  let installed ← Site.onTree (Task.observe fun t => exactDependencies t workdir)
  let us ← Site.onTree (p.uses repo workdir)
  assembleAll (p.assembly repo workdir commit installed) us

end ReferencePass
end UsageGraph
