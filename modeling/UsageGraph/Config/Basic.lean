import UsageGraph.Document.Basic
import UsageGraph.Duration
import UsageGraph.Fault
import UsageGraph.Version.Selection

/-! # Configuration

* `Config`: what an import needs to be told, with a default for every part.
* `Config.validate`: the values that no import can work with.
* `Config.toDocument`: the JSON form.
-/

namespace UsageGraph
set_option autoImplicit false

structure Workers where
  /-- How many repositories are imported at a time. -/
  concurrency : Nat
  /-- The history of a repository with more commits is not replayed. -/
  maxCommits : Nat
  deriving DecidableEq, Repr

structure CompilerSettings where
  makeCommand : List String
  installCommand : List String
  timeoutSecs : Nat
  /-- The version of the language that the compiler implements. -/
  languageVersion : String
  deriving DecidableEq, Repr

structure PathSettings where
  /-- Where repositories are checked out. -/
  repos : String
  /-- Where reference dumps go; none are written without it. -/
  references : Option String
  database : String
  deriving DecidableEq, Repr

structure CatalogSettings where
  source : String
  selection : SelectionPolicy
  deriving DecidableEq, Repr

structure Config where
  workers : Workers
  compiler : CompilerSettings
  paths : PathSettings
  catalog : CatalogSettings
  /-- The address of the hosting service. -/
  host : String
  deriving DecidableEq, Repr

/-! ## Defaults -/

def Workers.default : Workers := ⟨5, 10000⟩

def CompilerSettings.default : CompilerSettings where
  makeCommand := ["lib/make.sh", "\x7bworkdir\x7d", "\x7bfile\x7d"]
  installCommand := ["lib/install.sh", "\x7bworkdir\x7d"]
  timeoutSecs := 300
  languageVersion := "0.18.0"

def CompilerSettings.timeout (c : CompilerSettings) : Duration := .ofSeconds c.timeoutSecs

def PathSettings.default : PathSettings := ⟨"_repos", none, "xref.db"⟩

def CatalogSettings.default : CatalogSettings :=
  ⟨"http://package.elm-lang.org/all-packages", .highest⟩

def defaultHost : String := "https://github.com"

def Config.default : Config :=
  ⟨.default, .default, .default, .default, defaultHost⟩

def SelectionPolicy.name : SelectionPolicy → String
  | .highest => "highest"
  | .first => "first"

namespace Config

/-! ## Validation -/

/-- The first of the conditions that fails is reported. -/
def validate (c : Config) : Except Fault Unit :=
  if c.workers.concurrency = 0 then
    .error (.config "workers.concurrency must be at least 1")
  else if c.compiler.makeCommand = [] then
    .error (.config "compiler.make_command must not be empty")
  else if c.compiler.timeoutSecs = 0 then
    .error (.config "compiler.timeout_secs must be positive")
  else .ok ()

/-! ## The JSON form -/

def toDocument (c : Config) : Document :=
  .ofFields [
    ("workers", .ofFields [
      ("concurrency", .ofNat c.workers.concurrency), ("max_commits", .ofNat c.workers.maxCommits)]),
    ("compiler", .ofFields [
      ("make_command", .ofTexts c.compiler.makeCommand),
      ("install_command", .ofTexts c.compiler.installCommand),
      ("timeout_secs", .ofNat c.compiler.timeoutSecs),
      ("language_version", .ofText c.compiler.languageVersion)]),
    ("paths", .ofFields [
      ("repos_dir", .ofText c.paths.repos),
      ("references_dir", .ofOption .ofText c.paths.references),
      ("database", .ofText c.paths.database)]),
    ("catalog", .ofFields [
      ("source", .ofText c.catalog.source),
      ("selection", .ofText c.catalog.selection.name)]),
    ("github", .ofFields [("host", .ofText c.host)])]

end Config
end UsageGraph
