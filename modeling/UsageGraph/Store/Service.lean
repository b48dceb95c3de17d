import UsageGraph.Store.Queries
import UsageGraph.Task

/-! # Access to a store

* `StoreService`: what an import asks of a store. Any of it may be refused.
* `StoreService.standard`: the store itself, which refuses nothing.
-/

namespace UsageGraph
set_option autoImplicit false

structure StoreService where
  /-- Comes before the operations below, once for each import that is stored or marked. -/
  enter : Task Store Unit
  upsert : Repository → Lifetime → Task Store Unit
  /-- How many references the repository has afterwards. -/
  replaceReferences : String → List Reference → Task Store Nat
  /-- How many intervals were stored. -/
  replaceIntervals : String → List Interval → Task Store Nat
  markImported : String → Task Store Unit

namespace StoreService

/-- An operation that gives a value and the store that it makes. -/
def step {α : Type} (f : Store → α × Store) : Task Store α := fun s =>
  ⟨.ok (f s).1, (f s).2, []⟩

def standard : StoreService where
  enter := return ()
  upsert r l := Task.change fun s => s.upsert r l
  replaceReferences repo rs := step fun s => s.replaceReferences repo rs
  replaceIntervals repo is := step fun s => s.replaceIntervals repo is
  markImported repo := do
    Task.reportAll ((← Task.state).markEvents repo)
    Task.change fun s => s.markImported repo

/-- A store that nobody gets into. -/
def closed (fault : Fault) : StoreService := { standard with enter := Task.fail fault }

end StoreService
end UsageGraph
