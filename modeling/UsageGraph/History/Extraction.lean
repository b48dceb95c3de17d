import UsageGraph.History.Commit
import UsageGraph.History.Timeline
import UsageGraph.Package.Catalog
import UsageGraph.Package.Id
import UsageGraph.Package.Manifest
import UsageGraph.Task

/-! # Replaying a history

* `HistorySource`: a working tree that can be moved from commit to commit.
* `History`: the intervals of a repository, its lifetime and the number of its commits.
* `Extractor.extract`: checks out every commit, the oldest first, and keeps a timeline of what the
  manifests declare. Time never runs backwards: a commit counts as made no earlier than those before
  it. A history that is too long is not replayed.
-/

namespace UsageGraph
set_option autoImplicit false

structure HistorySource (σ : Type) where
  /-- The oldest commit first. -/
  commits : Task σ (List Commit)
  checkout : Commit → Task σ Unit
  /-- The manifest in the working tree, if there is one that can be read. -/
  manifest : Task σ (Option Manifest)

structure History where
  intervals : List Interval
  lifetime : Lifetime
  commitCount : Nat
  skipped : Bool
  deriving DecidableEq, Repr

/-- The history of a repository of which nothing is known. -/
def History.none : History := ⟨[], ⟨Option.none, Option.none⟩, 0, false⟩

def lifetime (commits : List Commit) : Lifetime :=
  ⟨commits.head?.map Commit.timestamp, commits.getLast?.map Commit.timestamp⟩

structure Extractor where
  resolver : Resolver
  maxCommits : Nat

namespace Extractor
variable {σ : Type} (x : Extractor) (owner : String) (source : HistorySource σ)

/-- The later of two instants. -/
def later (a b : Instant) : Instant := if a < b then b else a

def backwardsEvents (previous : Instant) (c : Commit) : List Event :=
  if c.timestamp < previous then
    [.debug (owner ++ ": commit " ++ c.shortHash ++ " goes back in time, clamping timestamp")]
  else []

def undeclaredEvents (c : Commit) (m : Option Manifest) : List Event :=
  if m.isNone then [.debug (owner ++ ": no manifest at " ++ c.shortHash)] else []

/-- Without a manifest nothing is declared. -/
def declared (m : Option Manifest) : Table String := (m.map Manifest.dependencies).getD .empty

def resolutionEvents (table : Table String) : List Event :=
  table.entries.flatMap fun p => x.resolver.events p.1 p.2

def replay : List Commit → Instant → Timeline → Task σ Timeline
  | [], _, t => return t
  | c :: rest, previous, t => do
    let at_ := later c.timestamp previous
    Task.reportAll (backwardsEvents owner previous c)
    source.checkout c
    let m ← source.manifest
    Task.reportAll (undeclaredEvents owner c m)
    Task.reportAll (x.resolutionEvents (declared m))
    replay rest at_ (t.advance owner at_ x.resolver.resolve (declared m))

def skippedEvent (count : Nat) : Event :=
  .info (owner ++ ": skipping history, " ++ toString count ++ " commits exceed the limit of " ++
    toString x.maxCommits)

def extract : Task σ History := do
  let commits ← source.commits
  let count := commits.length
  if x.maxCommits < count then
    Task.report (x.skippedEvent owner count)
    return ⟨[], lifetime commits, count, true⟩
  else
    let t ← x.replay owner source commits Int64.minValue .empty
    return ⟨t.intervals owner, lifetime commits, count, false⟩

end Extractor
end UsageGraph
