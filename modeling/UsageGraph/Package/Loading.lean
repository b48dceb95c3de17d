import UsageGraph.FileTree.Tasks
import UsageGraph.Package.Catalog
import UsageGraph.Package.Id
import UsageGraph.Package.Manifest

/-! # Packages in a file tree

* `Manifest.find?`, `Manifest.read`: the manifest of a directory.
* `Manifest.readOptional`: the same where a manifest may be missing or unreadable.
* `exactDependencies`: the versions that an installation chose.
* `Package`, `Package.load`: a package with its source directories.
* `Web`, `Fetched`: how a network answers a request.
* `Catalog.load`, `Catalog.fetch`: the catalog in a file, or at an address.
* `Catalog.loadFrom`: whichever of the two a source stands for.
-/

namespace UsageGraph
open Text
set_option autoImplicit false

/-! ## Manifests -/

namespace Manifest

/-- The path of the first manifest that is a file. -/
def find? (t : FileTree) (root : String) : Option String :=
  (manifestNames.map (Path.join root)).find? t.isFile

def read (t : FileTree) (root : String) : Except Fault Manifest :=
  match find? t root with
  | none => .error (.manifestMissing ("no " ++ join " or " manifestNames ++ " in " ++ root))
  | some path => do
    let content ← ofIo (t.readText path)
    parse content path

/-- A manifest that is missing or cannot be understood is none. -/
def tolerate : Except Fault Manifest → Except Fault (Option Manifest)
  | .ok m => .ok (some m)
  | .error (.manifestMissing _) => .ok none
  | .error (.manifestInvalid _) => .ok none
  | .error (.io .notFound) => .ok none
  | .error f => .error f

def tolerateEvents (root : String) : Except Fault Manifest → List Event
  | .error (.manifestInvalid defect) =>
    [.warn ("Ignoring unparsable manifest in " ++ root ++ ": " ++ defect.message)]
  | _ => []

def readOptional (t : FileTree) (root : String) : Except Fault (Option Manifest) :=
  tolerate (read t root)

def readOptionalEvents (t : FileTree) (root : String) : List Event :=
  tolerateEvents root (read t root)

end Manifest

/-! ## Installed versions -/

def exactDependenciesPath (workdir : String) : String :=
  Path.join (Path.join workdir buildDir) "exact-dependencies.json"

/-- Without the file, nothing is installed. -/
def exactDependencies (t : FileTree) (workdir : String) : Except Fault (Table String) :=
  let path := exactDependenciesPath workdir
  match t.readText path with
  | .error .notFound => .ok .empty
  | .error cause => .error (.io cause)
  | .ok content =>
    match (Document.parse? content).bind Document.textTable? with
    | some versions => .ok versions
    | none => .error (.manifestInvalid (.malformed path))

/-! ## Packages -/

structure Package where
  id : PackageId
  /-- None for the repository under import. -/
  version : Option String
  root : String
  /-- Relative to the root, in declaration order. -/
  sourceDirectories : List String
  manifestPath : String
  deriving DecidableEq, Repr

namespace Package

def load (t : FileTree) (id : PackageId) (version : Option String) (root : String) :
    Except Fault Package :=
  (Manifest.read t root).map fun m => ⟨id, version, root, m.sourceDirectories, m.path⟩

def sourceRoots (p : Package) : List String := p.sourceDirectories.map (Path.join p.root)

def label (p : Package) : String :=
  match p.version with
  | some v => p.id.fullName ++ "@" ++ v
  | none => p.id.fullName

end Package

/-! ## The network -/

inductive Fetched where
  | unreachable (reason : String)
  /-- The status is none of success. -/
  | refused (status : String)
  /-- The answer breaks off. -/
  | broken (reason : String)
  | body (content : String)
  deriving DecidableEq, Repr

structure Web where
  fetch : String → Fetched

/-- A machine without a network. -/
def Web.none : Web := ⟨fun _ => .unreachable "no network"⟩

/-! ## The catalog -/

namespace Catalog

def load (t : FileTree) (path : String) : Except Fault Catalog := do
  let content ← ofIo (t.readText path)
  parse content

def fetch (web : Web) (url : String) : Except Fault Catalog :=
  match web.fetch url with
  | .unreachable reason => .error (.catalog ("failed to fetch " ++ url ++ ": " ++ reason))
  | .refused status => .error (.catalog (url ++ " returned HTTP " ++ status))
  | .broken reason => .error (.catalog ("failed to read " ++ url ++ ": " ++ reason))
  | .body content => parse content

def isUrl (source : String) : Bool :=
  ["http://", "https://"].any fun scheme => scheme.toList.isPrefixOf source.toList

def loadFrom (web : Web) (t : FileTree) (source : String) : Except Fault Catalog :=
  if isUrl source then fetch web source else load t source

def loadEvents (c : Catalog) : List Event :=
  [.info ("Loaded version catalog with " ++ toString c.size ++ " packages")]

end Catalog
end UsageGraph
