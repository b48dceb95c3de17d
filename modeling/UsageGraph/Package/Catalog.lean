import UsageGraph.Document.Decode
import UsageGraph.Version.Selection
import UsageGraph.Fault

/-! # The catalog of published versions

* `Catalog.parse`: reads a listing, a list of package names with their versions.
* `Catalog.versions`: what is published for a package, in listing order.
* `Resolver`: a catalog with a selection policy, which turns ranges into versions.
-/

namespace UsageGraph
set_option autoImplicit false

structure Catalog where
  packages : Table (List String)

namespace Catalog

/-- Of entries for one package the last counts. -/
def ofEntries (entries : List (String × List String)) : Catalog := ⟨Table.ofList entries⟩

def listed? (d : Document) : Option (String × List String) := do
  let f ← d.fields? ["name", "versions"]
  let name ← f.required "name" Document.text?
  let versions ← f.defaulted "versions" Document.texts? []
  return (name, versions)

def parse (content : String) : Except Fault Catalog :=
  match (Document.parse? content).bind (Document.items? listed?) with
  | some entries => .ok (ofEntries entries)
  | none => .error (.catalog "invalid package listing: malformed document")

def versions (c : Catalog) (package : String) : List String := (c.packages.get? package).getD []

def size (c : Catalog) : Nat := c.packages.size

end Catalog

/-! ## Resolving ranges -/

structure Resolver where
  catalog : Catalog
  policy : SelectionPolicy

namespace Resolver

def resolve (r : Resolver) (package expr : String) : String :=
  selectVersion r.policy expr (r.catalog.versions package)

def events (r : Resolver) (package expr : String) : List Event :=
  selectionEvents r.policy expr (r.catalog.versions package)

end Resolver
end UsageGraph
