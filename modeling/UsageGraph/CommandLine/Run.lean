import UsageGraph.Command.Compiler
import UsageGraph.CommandLine.Action
import UsageGraph.Import.Importer
import UsageGraph.Store.Document

/-! # Carrying out an order

* `Machine`: git and the other programs.
* `Console`: an import session, with the lines that were printed.
* `Console.keepingStore`: a task on the store in a file, which is written back however the task ends.
* `carryOut`: what an order does and prints.
* `Transcript`, `runProgram`: the whole program, from its arguments to its exit code.
-/

namespace UsageGraph
open Text
set_option autoImplicit false

structure Machine where
  git : GitProgram
  programs : Programs

structure Console where
  session : Session
  printed : List String
  /-- What is told beside the results. -/
  noted : List String

namespace Console

def start (w : Workspace) : Console := ⟨⟨w, .empty, .empty⟩, [], []⟩

def say (line : String) : Task Console Unit :=
  Task.change fun c => { c with printed := c.printed ++ [line] }

def note (line : String) : Task Console Unit :=
  Task.change fun c => { c with noted := c.noted ++ [line] }

def sayDocuments (documents : List Document) : Task Console Unit :=
  say (Document.list documents).pretty

/-! ## Parts -/

def onSession {α : Type} (t : Task Session α) : Task Console α :=
  t.onPart session fun c s => { c with session := s }

def onWorkspace {α : Type} (t : Task Workspace α) : Task Console α :=
  onSession (Session.onWorkspace t)

def onTree {α : Type} (t : Task FileTree α) : Task Console α := onSession (Session.onTree t)

def onSite {α : Type} (t : Task Site α) : Task Console α := onSession (Session.onSite t)

def onStore {α : Type} (t : Task Store α) : Task Console α := onSession (Session.onStore t)

def observeTree {α : Type} (look : FileTree → Except Fault α) : Task Console α :=
  onTree (Task.observe look)

/-! ## The store in a file -/

def poolFault (reason : String) : Fault := .pool ("timed out waiting for connection: " ++ reason)

def createStore (path : String) : Task FileTree Unit :=
  (FileTree.write path (.text "")).recover fun _ =>
    Task.fail (poolFault ("unable to open database file: " ++ path))

/-- A file that is not there is created. -/
def readStore (path : String) : Task FileTree Store := do
  if !(← Task.state).exists? path then createStore path
  match ((← Task.state).readText path).toOption.bind Store.parse? with
  | some s => return s
  | none => Task.fail (poolFault "file is not a database")

def openStore (path : String) : Task Console Unit := do
  let s ← onTree (readStore path)
  onStore (Task.change fun _ => s)

def writeStore (path : String) : Task Console Unit := do
  let s ← onStore Task.state
  onTree (FileTree.write path (.text s.render))

def keepingStore {α : Type} (path : String) (t : Task Console α) : Task Console α := do
  openStore path
  let result ← t.attempt
  let _ ← (writeStore path).attempt
  Task.ofResult result

/-- A store that nothing was imported into is not looked for. -/
def openExisting (path : String) : Task Console Unit := do
  if (← onTree Task.state).exists? path then openStore path
  else Task.fail (.config ("database " ++ path ++ " not found, run `xref-indexer import` first"))

end Console

/-! ## The actions -/

section
open Console
variable (m : Machine) (web : Web) (c : Config)

def loadCatalog : Task Console Catalog := do
  let catalog ← observeTree fun t => Catalog.loadFrom web t c.catalog.source
  Task.reportAll catalog.loadEvents
  return catalog

def resolver : Task Console Resolver := return ⟨← loadCatalog web c, c.catalog.selection⟩

/-- The pass with the configured compiler. -/
def referencePass (cwd : String) : ReferencePass where
  config := c
  programs := m.programs
  compiler := commandCompiler m.programs (anchorProgram c.compiler.makeCommand cwd)
    c.compiler.timeout

/-! ### Importing -/

/-- How many of the repositories are new. -/
def enqueueAll : List Repository.Entry → Nat → Task Console Nat
  | [], added => return added
  | e :: rest, added => do
    let r ← Task.ofResult e.repository
    let new ← onStore (StoreService.step fun s => s.enqueue r)
    enqueueAll rest (if new then added + 1 else added)

def enqueueList (path : String) : Task Console Unit := do
  let content ← observeTree fun t => ofIo (t.readText path)
  let entries ← Task.ofResult (Repository.parseList content)
  let added ← enqueueAll entries 0
  say ("Enqueued " ++ toString added ++ " new repositories from " ++ path)

def importer (r : Resolver) (cwd : String) : Importer where
  git := m.git
  pass := referencePass m c cwd
  resolver := r
  store := .standard

def enqueueIfAsked : Option String → Task Console Unit
  | none => return ()
  | some path => enqueueList path

/-- How the imports went. -/
def importQueue (repos : Option String) : Task Console Progress := do
  enqueueIfAsked repos
  let pending := (← onStore Task.state).pending
  say (toString pending.length ++ " repositories pending")
  let r ← resolver web c
  let cwd := (← onTree Task.state).cwd
  let p ← onSession (runJobs (importer m c r cwd).job pending)
  say ("Imported " ++ toString p.succeeded ++ " repositories, " ++ toString p.failed ++ " failed")
  return p

def withConcurrency (concurrency : Option Nat) : Config :=
  { c with workers := { c.workers with
      concurrency := concurrency.getD c.workers.concurrency } }

/-- The complaint, if repositories were imported and none of them with success. -/
def importPending (repos : Option String) (concurrency : Option Nat) :
    Task Console (Option String) := do
  let c := withConcurrency c concurrency
  Task.ofResult c.validate
  let p ← keepingStore c.paths.database (importQueue m web c repos)
  return if p.succeeded = 0 ∧ 0 < p.failed then some "every import failed" else none

/-! ### One checkout -/

/-- What the checkout is at, if git can tell. -/
def commitOf (workdir : String) : Option String → Task Console String
  | some commit => return commit
  | none => (onWorkspace (do
      Git.openAt m.git workdir
      Git.head m.git workdir)).recover fun _ => return "HEAD"

def printReferences (path repo : String) (commit : Option String) : Task Console Unit := do
  let repo ← Task.ofResult (PackageId.parse repo)
  let workdir ← onTree (FileTree.absolute path)
  let commit ← commitOf m workdir commit
  let cwd := (← onTree Task.state).cwd
  let rs ← onSite ((referencePass m c cwd).run repo workdir commit)
  sayDocuments (rs.map Reference.toDocument)

def requireClean (path : String) : Task Console Unit := do
  if ← onWorkspace (Git.isClean m.git path) then return ()
  else Task.fail (.git (path ++ " has uncommitted changes, commit or stash them first"))

def noteSkipped (h : History) : Task Console Unit :=
  if h.skipped then
    note ("History skipped: " ++ toString h.commitCount ++ " commits exceed the limit of " ++
      toString c.workers.maxCommits)
  else return ()

/-- Every commit is checked out by force, so there must be nothing that could get lost. -/
def guardedExtractor (path : String) : Task Console Extractor := do
  onWorkspace (Git.openAt m.git path)
  requireClean m path
  return ⟨← resolver web c, c.workers.maxCommits⟩

def printHistory (path repo : String) : Task Console Unit := do
  let owner ← Task.ofResult (PackageId.parse repo)
  let x ← guardedExtractor m web c path
  let h ← onWorkspace (Git.withRestoredCheckout m.git path
    (x.extract owner.fullName (Git.historySource m.git path)))
  noteSkipped c h
  sayDocuments (h.intervals.map Interval.toDocument)

/-! ### What is stored -/

def intervalLine (i : Interval) : String :=
  i.dependency ++ " " ++ i.version ++ " [" ++ toString i.start.toInt ++ ", " ++
    (i.stop.elim "now" fun t => toString t.toInt) ++ ")  (" ++ i.range ++ ")"

def printIntervals (repo : String) : Task Console Unit := do
  let repo ← Task.ofResult (PackageId.parse repo)
  openExisting c.paths.database
  match (← onStore Task.state).intervalsOf repo.fullName with
  | [] => say ("No dependency intervals for " ++ repo.fullName)
  | is => is.forM fun i => say (intervalLine i)

def printUsages (package : String) (version : Option String) : Task Console Unit := do
  let package ← Task.ofResult (PackageId.parse package)
  openExisting c.paths.database
  let s ← onStore Task.state
  sayDocuments ((s.referencesTo package.fullName version).map Reference.toDocument)

/-! ### All of them -/

/-- Gives the complaint that a run ends with although nothing stood in its way. -/
def Action.carryOut : Action → Task Console (Option String)
  | .importPending repos concurrency => UsageGraph.importPending m web c repos concurrency
  | .references path repo commit => do
    printReferences m c path repo commit
    return none
  | .history path repo => do
    printHistory m web c path repo
    return none
  | .resolve range versions policy => do
    say (selectVersion policy range versions)
    return none
  | .intervals repo => do
    printIntervals c repo
    return none
  | .usages package version => do
    printUsages c package version
    return none

end

def Order.configuration (o : Order) : Task Console Config := do
  let c ← Console.onTree (Config.loadOrDefault o.config)
  return { c with paths := { c.paths with database := o.database.getD c.paths.database } }

def Order.carryOut (m : Machine) (web : Web) (o : Order) : Task Console (Option String) := do
  let c ← o.configuration
  o.action.carryOut m web c

/-! ## The program -/

structure Transcript where
  exit : Nat
  stdout : String
  stderr : String
  deriving DecidableEq, Repr

def linesText (lines : List String) : String := String.join (lines.map (· ++ "\n"))

def programVersion : String := "xref-indexer 0.1.0"

def Stop.transcript : Stop → Transcript
  | .help => ⟨0, "", ""⟩
  | .version => ⟨0, linesText [programVersion], ""⟩
  | .misuse => ⟨2, "", ""⟩

/-- The place in the program is left out. -/
def panicLine : String := "thread 'main' panicked:"

/-- What a run ends with, behind all that it printed. -/
def closing (c : Console) : Except Fault (Option String) → Transcript
  | .ok none => ⟨0, linesText c.printed, linesText c.noted⟩
  | .ok (some complaint) =>
    ⟨1, linesText c.printed, linesText (c.noted ++ ["Error: " ++ complaint])⟩
  | .error (.panicked text) => ⟨101, linesText c.printed, linesText (c.noted ++ [panicLine, text])⟩
  | .error f => ⟨1, linesText c.printed, linesText (c.noted ++ ["Error: " ++ f.message])⟩

/-- There is no network to fetch a catalog from. -/
def runProgram (m : Machine) (args : List String) (w : Workspace) :
    Transcript × Workspace × List Event :=
  match Order.parse args with
  | .error stop => (stop.transcript, w, [])
  | .ok order =>
    let o := order.carryOut m .none (.start w)
    (closing o.state o.result, o.state.session.workspace, o.events)

end UsageGraph
