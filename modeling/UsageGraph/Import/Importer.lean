import UsageGraph.Git.Repository
import UsageGraph.Import.Pool
import UsageGraph.Import.ReferencePass
import UsageGraph.Reference.Dump
import UsageGraph.Store.Service

/-! # Importing one repository

* `Session`: the file tree with the calls of git, the modules that are known, and the store.
* `Importer`: what an import is told and what it may use.
* `Importer.slot`: the directory that a repository is checked out into and that is emptied again.
* `Importer.importOne`: clones a repository, gathers its references and its history, stores both and
  cleans up. Only a clone that fails, or the store, makes an import fail.
* `Importer.run`: the same, and then marks the repository, however the import ended.
-/

namespace UsageGraph
open Text
set_option autoImplicit false

structure Session where
  workspace : Workspace
  modules : ModuleCache
  store : Store

namespace Session

def cwd (s : Session) : String := s.workspace.tree.cwd

def onWorkspace {α : Type} (t : Task Workspace α) : Task Session α :=
  t.onPart workspace fun s w => { s with workspace := w }

def onTree {α : Type} (t : Task FileTree α) : Task Session α := onWorkspace (Workspace.onTree t)

def onStore {α : Type} (t : Task Store α) : Task Session α :=
  t.onPart store fun s store => { s with store := store }

def site (s : Session) : Site := ⟨s.workspace.tree, s.modules⟩

def withSite (s : Session) (site : Site) : Session :=
  { s with workspace := { s.workspace with tree := site.tree }, modules := site.modules }

def onSite {α : Type} (t : Task Site α) : Task Session α := t.onPart site withSite

end Session

structure Importer where
  git : GitProgram
  pass : ReferencePass
  resolver : Resolver
  store : StoreService

namespace Importer
variable (i : Importer)

def config : Config := i.pass.config

/-! ## Places -/

def slot (repo : PackageId) : String :=
  Path.join (Path.join i.config.paths.repos repo.owner) repo.name

def cloneUrl (repo : PackageId) : String :=
  join "/" [dropTrailing '/' i.config.host, repo.owner, repo.name]

/-! ## The two passes

A pass that fails is reported and leaves nothing. -/

def referencesOf (repo : PackageId) (workdir commit : String) : Task Session (List Reference) :=
  (Session.onSite (i.pass.run repo workdir commit)).recover fun f => do
    Task.report (.warn (repo.fullName ++ ": reference resolution failed: " ++ f.message))
    return []

def extractor : Extractor := ⟨i.resolver, i.config.workers.maxCommits⟩

def replay (repo : PackageId) (workdir : String) : Task Workspace History :=
  Git.withRestoredCheckout i.git workdir
    (i.extractor.extract repo.fullName (Git.historySource i.git workdir))

def historyOf (repo : PackageId) (workdir : String) : Task Session History :=
  (Session.onWorkspace (i.replay repo workdir)).recover fun f => do
    Task.report (.warn (repo.fullName ++ ": dependency history failed: " ++
      (f.joined "history task").message))
    return .none

/-! ## Keeping the results -/

def dump (repo : PackageId) (references : List Reference) : Task Session Unit :=
  match i.config.paths.references with
  | none => return ()
  | some dir => do
    match ← (Session.onTree (dumpReferences dir repo references)).attempt with
    | .ok _ => return ()
    | .error f =>
      Task.report (.warn (repo.fullName ++ ": couldn't write reference dump: " ++ f.message))

def save (repo : Repository) (references : List Reference) (h : History) :
    Task Store ImportSummary := do
  i.store.enter
  i.store.upsert repo h.lifetime
  let stored ← i.store.replaceReferences repo.id.fullName references
  let intervals ← i.store.replaceIntervals repo.id.fullName h.intervals
  return ⟨stored.toUInt64, intervals.toUInt64, h.skipped⟩

/-! ## One import -/

def importInto (repo : Repository) (workdir : String) : Task Session ImportSummary := do
  Session.onWorkspace (Git.cloneOrPull i.git (i.cloneUrl repo.id) workdir)
  let head ← Session.onWorkspace (Git.head i.git workdir)
  let references ← i.referencesOf repo.id workdir head
  let history ← i.historyOf repo.id workdir
  i.dump repo.id references
  Session.onStore (i.save repo references history)

/-- Forgets the modules of files in a directory. -/
def forget (workdir : String) : Task Session Unit :=
  Task.change fun s => { s with modules := s.modules.invalidateUnder s.cwd workdir }

def emptySlot (workdir : String) : Task FileTree Unit :=
  (FileTree.removeAll workdir).recover fun
    | .io .notFound => return ()
    | .io cause => Task.report (.warn ("Couldn't empty " ++ workdir ++ ": " ++ cause.message))
    | f => Task.report (.warn ("Couldn't empty " ++ workdir ++ ": " ++ f.message))

def cleanUp (workdir : String) : Task Session Unit := do
  Session.onTree (emptySlot workdir)
  forget workdir

/-- Imports take no time that could be told here. -/
def importedEvent (repo : PackageId) (s : ImportSummary) : Event :=
  .info (repo.fullName ++ " successfully imported " ++ toString s.references ++
    " reference(s) and " ++ toString s.intervals ++ " dependency interval(s) in 0.0 second(s)")

def importOne (repo : Repository) : Task Session ImportSummary := do
  let workdir ← Session.onTree (FileTree.absolute (i.slot repo.id))
  Task.report (.info (repo.id.fullName ++ ": importing"))
  forget workdir
  let result ← (i.importInto repo workdir).attempt
  cleanUp workdir
  let summary ← Task.ofResult result
  Task.report (importedEvent repo.id summary)
  return summary

def mark (repo : String) : Task Store Unit := do
  i.store.enter
  i.store.markImported repo

/-- A repository that cannot be marked is reported. -/
def markOrReport (repo : PackageId) : Task Session Unit :=
  (Session.onStore (i.mark repo.fullName)).recover fun f =>
    Task.report (.error (repo.fullName ++ ": couldn't mark as imported: " ++ f.message))

def run (repo : Repository) : Task Session ImportSummary := do
  let result ← (i.importOne repo).attempt
  i.markOrReport repo.id
  Task.ofResult result

/-- An import as a job among others. -/
def job (repo : Repository) : Task Session JobEnd :=
  return .ofResult (← (i.run repo).attempt)

end Importer
end UsageGraph
