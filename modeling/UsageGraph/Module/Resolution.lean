import UsageGraph.Module.Header
import UsageGraph.Package.Loading
import UsageGraph.Text.Inspect

/-! # Which file defines a module

* `Checkout`: a repository under import, with the versions that are installed in it.
* `ResolvedModule`: a package root and the file below it.
* `Package.moduleFile`: the file of a module in a package; source directories are tried in order.
* `LoadedPackages`: the packages whose manifest has been read. Each root is read once.
* `Checkout.resolve`: the file that defines a module of a package.
-/

namespace UsageGraph
open Text
set_option autoImplicit false

structure Checkout where
  current : PackageId
  workdir : String
  /-- Version by package. -/
  installed : Table String
  deriving Repr

structure ResolvedModule where
  packageRoot : String
  /-- Relative to the package root. -/
  file : String
  deriving DecidableEq, Repr

def ResolvedModule.absolutePath (m : ResolvedModule) : String := Path.join m.packageRoot m.file

/-! ## In one package -/

/-- A path below a directory, without empty parts and dots. -/
def joinRelative (dir path : String) : String :=
  let kept := (splitAll '/' dir.toList ++ splitAll '/' path.toList).filter fun s =>
    s ≠ [] && s ≠ ['.']
  String.ofList (Path.joinChars kept)

namespace Package

def moduleFile? (p : Package) (t : FileTree) (path : String) : Option ResolvedModule :=
  (p.sourceDirectories.find? fun dir => t.isFile (Path.join (Path.join p.root dir) path)).map
    fun dir => ⟨p.root, joinRelative dir path⟩

def moduleFile (p : Package) (t : FileTree) (module : String) : Except Fault ResolvedModule :=
  match p.moduleFile? t (modulePath module) with
  | some m => .ok m
  | none => .error (.moduleNotFound p.id.fullName module)

def missingEvents (p : Package) (t : FileTree) (module : String) : List Event :=
  match p.moduleFile? t (modulePath module) with
  | some _ => []
  | none => [.debug (p.label ++ ": no " ++ modulePath module ++ " under " ++
      inspectAll p.sourceDirectories)]

def loadedEvent (p : Package) : Event :=
  .debug (p.label ++ ": source directories " ++ inspectAll p.sourceDirectories ++ " from " ++
    p.manifestPath)

end Package

/-! ## In a checkout -/

/-- Packages by the components of their root. -/
abbrev LoadedPackages := List (List Path.Part × Package)

def packagesDir : String := "packages"

namespace Checkout

def installedVersion? (c : Checkout) (package : PackageId) : Option String :=
  c.installed.get? package.fullName

/-- Where a version of a package is installed. -/
def packageRoot (c : Checkout) (package : PackageId) (version : String) : String :=
  [buildDir, packagesDir, package.owner, package.name, version].foldl Path.join c.workdir

/-- The root of a package and the version it is installed at. The repository itself has no version,
and another package has to be installed unless a version is given. -/
def root (c : Checkout) (package : PackageId) (version : Option String) (module : String) :
    Except Fault (String × Option String) :=
  if package = c.current then .ok (c.workdir, none)
  else
    match version <|> c.installedVersion? package with
    | some v => .ok (c.packageRoot package v, some v)
    | none => .error (.moduleNotFound package.fullName module)

def loadPackage (t : FileTree) (package : PackageId) (version : Option String) (root : String) :
    Task LoadedPackages Package := do
  match (← Task.state).lookup (Path.parts root) with
  | some p => return p
  | none =>
    let p ← Task.ofResult (Package.load t package version root)
    Task.report p.loadedEvent
    Task.change fun loaded => (Path.parts root, p) :: loaded
    return p

def resolve (c : Checkout) (t : FileTree) (package : PackageId) (version : Option String)
    (module : String) : Task LoadedPackages ResolvedModule := do
  let (root, pinned) ← Task.ofResult (c.root package version module)
  let p ← loadPackage t package pinned root
  Task.reportAll (p.missingEvents t module)
  Task.ofResult (p.moduleFile t module)

end Checkout
end UsageGraph
