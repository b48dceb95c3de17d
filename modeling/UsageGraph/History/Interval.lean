import UsageGraph.Document.Decode

/-! # Dependency intervals

* `Instant`: milliseconds since the epoch.
* `Interval`: a period in which a repository declared one version of a dependency.
* `Lifetime`: the first and the last commit of a repository.
* `Interval.toDocument`, `Interval.ofDocument?`: the JSON form, which leaves out an absent end.
-/

namespace UsageGraph
set_option autoImplicit false

abbrev Instant := Int64

structure Interval where
  owner : String
  dependency : String
  /-- A published version, or the range itself where none was found for it. -/
  version : String
  range : String
  /-- The commit that starts the period, inclusive. -/
  start : Instant
  /-- The commit that ends it, exclusive; none while the last commit still declares it. -/
  stop : Option Instant
  deriving DecidableEq, Repr

/-- The first and the last commit; none of an empty history. -/
structure Lifetime where
  created : Option Instant
  lastCommit : Option Instant
  deriving DecidableEq, Repr

def Document.ofInstant (t : Instant) : Document := .ofInt t.toInt

def Document.instant? : Document → Option Instant
  | number n => n.toInt?.bind fun v =>
    if Int64.minValue.toInt ≤ v ∧ v ≤ Int64.maxValue.toInt then some (Int64.ofInt v) else none
  | _ => none

namespace Interval

def isOpen (i : Interval) : Bool := i.stop.isNone

def toDocument (i : Interval) : Document :=
  .ofFields ([("ownerRepo", .ofText i.owner), ("dependencyRepo", .ofText i.dependency),
    ("version", .ofText i.version), ("versionRange", .ofText i.range),
    ("start", .ofInstant i.start)] ++
    (i.stop.map fun t => ("end", Document.ofInstant t)).toList)

def ofDocument? (d : Document) : Option Interval := do
  let f ← d.fields? ["ownerRepo", "dependencyRepo", "version", "versionRange", "start", "end"]
  let owner ← f.required "ownerRepo" Document.text?
  let dependency ← f.required "dependencyRepo" Document.text?
  let version ← f.required "version" Document.text?
  let range ← f.required "versionRange" Document.text?
  let start ← f.required "start" Document.instant?
  let stop ← f.spare "end" Document.instant?
  return ⟨owner, dependency, version, range, start, stop⟩

end Interval
end UsageGraph
