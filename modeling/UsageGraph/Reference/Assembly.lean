import UsageGraph.Diagnostic.Report
import UsageGraph.Digest.Xxh3
import UsageGraph.Module.Cache
import UsageGraph.Module.Resolution
import UsageGraph.Reference.Basic

/-! # From uses to references

* `Assembly`: the repository, the revision that is checked out, and the checkout.
* `Assembly.locatorKey`, `Assembly.locator`: what identifies a use, and its digest.
* `Assembly.url`: where a browser shows the use.
* `Assembly.assembleOne`, `Assembly.assemble`: the reference of a use, and of all uses for which
  there is one.
-/

namespace UsageGraph
open Text
set_option autoImplicit false

structure Assembly where
  commit : String
  /-- The address of the hosting service, without a slash at the end. -/
  host : String
  checkout : Checkout
  deriving Repr

def Assembly.of (commit host : String) (checkout : Checkout) : Assembly :=
  ⟨commit, dropTrailing '/' host, checkout⟩

/-- What has been read so far. -/
structure Known where
  packages : LoadedPackages
  modules : ModuleCache

namespace Known

def onPackages {α : Type} (t : Task LoadedPackages α) : Task Known α :=
  t.onPart Known.packages fun k packages => { k with packages := packages }

def onModules {α : Type} (t : Task ModuleCache α) : Task Known α :=
  t.onPart Known.modules fun k modules => { k with modules := modules }

end Known

namespace Assembly
variable (a : Assembly)

/-! ## Names of a use -/

def repo : PackageId := a.checkout.current

def locatorKey (u : ExternalUse) (referredFile : String) : String :=
  join "|" [a.repo.fullName, u.file, u.region.start.render ++ "-" ++ u.region.stop.render,
    u.package.fullName, referredFile, u.symbol]

def locator (u : ExternalUse) (referredFile : String) : String :=
  Digest.hex16 (Digest.xxh3 (encode (a.locatorKey u referredFile)))

def url (u : ExternalUse) : String :=
  join "/" [a.host, a.repo.owner, a.repo.name, "blob", a.commit, u.file] ++ "#" ++
    u.region.lineAnchor

/-! ## References -/

/-- The version of the package that a use refers to; a use of the repository itself has none. -/
def referredVersion? (u : ExternalUse) : Option String :=
  if u.package = a.repo then none else a.checkout.installedVersion? u.package

def reference (u : ExternalUse) (resolved : ResolvedModule) (referred referer : Option String) :
    Reference where
  id := a.locator u resolved.file
  symbol := u.symbol
  region := u.region
  url := a.url u
  version := a.referredVersion? u
  referer := ⟨a.repo.fullName, u.file, referer⟩
  referred := ⟨u.package.fullName, resolved.file, referred <|> some u.module⟩

/-- Both files are asked for the module that they declare. -/
def assembleOne (t : FileTree) (u : ExternalUse) : Task Known Reference := do
  let version := a.referredVersion? u
  let resolved ← Known.onPackages (a.checkout.resolve t u.package version u.module)
  let referred ← Known.onModules
    (ModuleCache.moduleOf t resolved.absolutePath (version.getD a.commit))
  let referer ← Known.onModules
    (ModuleCache.moduleOf t (Path.join a.checkout.workdir u.file) a.commit)
  return a.reference u resolved referred referer

def droppedEvent (u : ExternalUse) : Fault → Event
  | .moduleNotFound package module => .warn (u.file ++ ": dropping reference to " ++ u.symbol ++
      ": " ++ (Fault.moduleNotFound package module).message)
  | f => .warn (u.file ++ ": couldn't assemble reference to " ++ u.module ++ "." ++ u.symbol ++
      ": " ++ f.message)

/-- The references in the order of the uses. A use without a reference is dropped. -/
def assemble (t : FileTree) : List ExternalUse → Task Known (List Reference)
  | [] => return []
  | u :: us => do
    match ← (a.assembleOne t u).attempt with
    | .ok r => return r :: (← assemble t us)
    | .error f =>
      Task.report (droppedEvent u f)
      assemble t us

end Assembly
end UsageGraph
