import UsageGraph.History.Interval
import UsageGraph.Reference.Basic
import UsageGraph.Repository
import UsageGraph.Trace

/-! # The store

What has been found out about repositories, in five tables.

* `Store.enqueue`, `Store.upsert`, `Store.markImported`: the repositories and what is known of them.
* `Store.replaceReferences`, `Store.replaceIntervals`: all that one repository refers to and depends
  on, in place of what was there.

A reference is stored as a row that points to its two files and to its symbol. Files and symbols are
shared by all references, and are never taken out.

The tables are taken to be kept as SQLite documents it: one row for each key, a transaction as a whole
or not at all, numbers of 64 bits with a sign, texts ordered by their bytes. A database that refuses is
a `StoreService`.
-/

namespace UsageGraph
set_option autoImplicit false

/-! ## Rows -/

structure RepositoryRow where
  owner : String
  name : String
  /-- A count beyond the range wraps around. -/
  stars : Option Int64
  license : Option String
  lastUpdated : Option String
  lifetime : Lifetime
  imported : Bool
  deriving DecidableEq, Repr

structure FileRow where
  repo : String
  path : String
  module : Option String
  deriving DecidableEq, Repr

structure ReferenceRow where
  /-- The repository under which the reference was stored. -/
  repo : String
  referer : String
  referred : String
  symbolId : String
  version : Option String
  region : Region
  url : String
  deriving DecidableEq, Repr

structure Store where
  /-- By full name. -/
  repositories : Table RepositoryRow
  /-- By file id. -/
  files : Table FileRow
  /-- The name of a symbol, by symbol id. -/
  symbols : Table String
  /-- By locator. -/
  references : Table ReferenceRow
  /-- In the order in which they were stored. -/
  intervals : List Interval
  deriving DecidableEq, Repr

namespace Store

def empty : Store := ⟨.empty, .empty, .empty, .empty, []⟩

/-! ## Repositories -/

def repositoryRow (r : Repository) (l : Lifetime) : RepositoryRow where
  owner := r.owner
  name := r.name
  stars := r.stars.map Int64.ofNat
  license := r.license
  lastUpdated := r.lastUpdated
  lifetime := l
  imported := false

/-- Adds a repository that is not known, and tells whether it was added. -/
def enqueue (s : Store) (r : Repository) : Bool × Store :=
  let key := r.id.fullName
  if s.repositories.contains key then (false, s)
  else (true, { s with repositories := s.repositories.insert key (repositoryRow r ⟨none, none⟩) })

/-- What a new row says counts; what it leaves open is kept. -/
def RepositoryRow.refresh (old new : RepositoryRow) : RepositoryRow :=
  { old with
    stars := new.stars <|> old.stars
    license := new.license <|> old.license
    lastUpdated := new.lastUpdated <|> old.lastUpdated
    lifetime := ⟨new.lifetime.created <|> old.lifetime.created,
      new.lifetime.lastCommit <|> old.lifetime.lastCommit⟩ }

/-- Adds a repository, or refreshes what is known of it. -/
def upsert (s : Store) (r : Repository) (l : Lifetime) : Store :=
  let key := r.id.fullName
  let new := repositoryRow r l
  let row := match s.repositories.get? key with
    | none => new
    | some old => RepositoryRow.refresh old new
  { s with repositories := s.repositories.insert key row }

def markImported (s : Store) (repo : String) : Store :=
  match s.repositories.get? repo with
  | none => s
  | some row => { s with repositories := s.repositories.insert repo { row with imported := true } }

def markEvents (s : Store) (repo : String) : List Event :=
  if s.repositories.contains repo then []
  else [.debug ("mark_imported: " ++ repo ++ " is not a known repository")]

/-! ## References -/

/-- A known file only takes over a module. -/
def putFile (s : Store) (f : FileRef) : Store :=
  let row : FileRow := match s.files.get? f.id with
    | none => ⟨f.repo, f.file, f.module⟩
    | some old => { old with module := f.module <|> old.module }
  { s with files := s.files.insert f.id row }

/-- A known symbol keeps its name. -/
def putSymbol (s : Store) (id name : String) : Store :=
  if s.symbols.contains id then s else { s with symbols := s.symbols.insert id name }

def referenceRow (repo : String) (r : Reference) : ReferenceRow where
  repo := repo
  referer := r.referer.id
  referred := r.referred.id
  symbolId := r.symbolId
  version := r.version
  region := r.region
  url := r.url

/-- A reference replaces the one with its locator, whatever repository that one is from. -/
def putReference (repo : String) (s : Store) (r : Reference) : Store :=
  let s := ((s.putFile r.referer).putFile r.referred).putSymbol r.symbolId r.symbol
  { s with references := s.references.insert r.id (referenceRow repo r) }

def dropReferences (s : Store) (repo : String) : Store :=
  { s with references := s.references.filter fun p => p.2.repo ≠ repo }

def countReferences (s : Store) (repo : String) : Nat :=
  s.references.entries.countP fun p => p.2.repo = repo

/-- How many references the repository has afterwards. -/
def replaceReferences (s : Store) (repo : String) (rs : List Reference) : Nat × Store :=
  let s := rs.foldl (putReference repo) (s.dropReferences repo)
  (s.countReferences repo, s)

/-! ## Intervals -/

/-- The intervals are stored as those of the repository that is named. -/
def replaceIntervals (s : Store) (repo : String) (is : List Interval) : Nat × Store :=
  (is.length, { s with
    intervals := (s.intervals.filter fun i => i.owner ≠ repo) ++
      is.map fun i => { i with owner := repo } })

end Store
end UsageGraph
