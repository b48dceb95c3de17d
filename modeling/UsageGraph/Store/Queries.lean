import UsageGraph.Store.Basic

/-! # Asking the store

* `Store.pending`: the repositories that are still to be imported, those with most stars first.
* `Store.referencesFrom`, `Store.referencesTo`: the references of a repository, and those to it.
* `Store.intervalsOf`: the dependency intervals of a repository.
-/

namespace UsageGraph
set_option autoImplicit false

/-- Compares by one key after the other. -/
def lexicographic (orders : List Ordering) : Ordering := orders.foldr Ordering.then .eq

namespace Store

/-! ## Repositories -/

/-- A count that has wrapped around is shown as none at all. -/
def RepositoryRow.toRepository (row : RepositoryRow) : Repository where
  owner := row.owner
  name := row.name
  stars := row.stars.map fun n => n.toInt.toNat
  lastUpdated := row.lastUpdated
  license := row.license

/-- More stars come first, and unknown ones last. -/
def compareStars : Option Int64 → Option Int64 → Ordering
  | some a, some b => Ord.compare b.toInt a.toInt
  | some _, none => .lt
  | none, some _ => .gt
  | none, none => .eq

def comparePending (a b : String × RepositoryRow) : Ordering :=
  lexicographic [compareStars a.2.stars b.2.stars, Ord.compare a.1 b.1]

def pending (s : Store) : List Repository :=
  ((s.repositories.entries.filter fun p => !p.2.imported).mergeSort fun a b =>
    (comparePending a b).isLE).map fun p => RepositoryRow.toRepository p.2

/-! ## References -/

def fileRef? (s : Store) (id : String) : Option FileRef :=
  (s.files.get? id).map fun f => ⟨f.repo, f.path, f.module⟩

/-- A row with the files and the symbol that it points to. -/
def reference? (s : Store) (p : String × ReferenceRow) : Option Reference := do
  let symbol ← s.symbols.get? p.2.symbolId
  let referer ← s.fileRef? p.2.referer
  let referred ← s.fileRef? p.2.referred
  return ⟨p.1, symbol, p.2.region, p.2.url, p.2.version, referer, referred⟩

def comparePlaces (a b : Reference) : Ordering :=
  lexicographic [Ord.compare a.referer.file b.referer.file,
    Ord.compare a.region.start.line b.region.start.line,
    Ord.compare a.region.start.column b.region.start.column, Ord.compare a.id b.id]

def referencesFrom (s : Store) (repo : String) : List Reference :=
  ((s.references.entries.filter fun p => p.2.repo = repo).filterMap s.reference?).mergeSort fun a b =>
    (comparePlaces a b).isLE

def compareReferers (a b : Reference) : Ordering :=
  lexicographic [Ord.compare a.referer.repo b.referer.repo, comparePlaces a b]

/-- The references to files of a repository; with a version, those to that version alone. -/
def referencesTo (s : Store) (repo : String) (version : Option String) : List Reference :=
  ((s.references.entries.filterMap s.reference?).filter fun r =>
    r.referred.repo = repo ∧ (version = none ∨ r.version = version)).mergeSort fun a b =>
      (compareReferers a b).isLE

/-! ## Intervals -/

def compareIntervals (a b : Interval) : Ordering :=
  lexicographic [Ord.compare a.dependency b.dependency, Ord.compare a.start.toInt b.start.toInt]

/-- By dependency and start; otherwise in the order in which they were stored. -/
def intervalsOf (s : Store) (repo : String) : List Interval :=
  (s.intervals.filter fun i => i.owner = repo).mergeSort fun a b => (compareIntervals a b).isLE

end Store
end UsageGraph
