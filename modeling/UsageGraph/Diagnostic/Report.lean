import UsageGraph.Diagnostic.Overview
import UsageGraph.Diagnostic.Stream
import UsageGraph.Path.Basic
import UsageGraph.Trace

/-! # What one compilation tells

* `relativeName`: the name of a reported file below the checkout.
* `ExternalUse`: a use of a value that another package defines.
* `Report`, `scrape`: the uses that an output reports, and the files that it is about.
* `scrapeEvents`: what is reported about records that cannot be read.
-/

namespace UsageGraph
set_option autoImplicit false

/-! ## File names -/

/-- The names among the components of a path, after those of `workdir` if it starts with them. -/
def relativeName (file workdir : String) : String :=
  Path.namesOnly ((Path.stripPrefix? workdir file).getD (Path.parts file))

/-- Adds a name to names in byte order. -/
def insertName (name : String) : List String → List String
  | [] => [name]
  | n :: ns =>
    if name = n then n :: ns
    else if name < n then name :: n :: ns
    else n :: insertName name ns

def nameSet (names : List String) : List String := names.foldl (fun ns n => insertName n ns) []

/-! ## Reports -/

/-- In `file`, `symbol` is used, which `module` of `package` defines. -/
structure ExternalUse where
  symbol : String
  package : PackageId
  module : String
  region : Region
  file : String
  deriving DecidableEq, Repr

structure Report where
  uses : List ExternalUse
  /-- Each name once, in byte order. -/
  files : List String
  deriving DecidableEq, Repr

def Report.empty : Report := ⟨[], []⟩

/-- The tag of records about values of other modules. -/
def externalTag : String := "external value"

namespace Diagnostic

/-- The use that a record reports. The package under compilation does not count as another. -/
def use? (workdir : String) (d : Diagnostic) : Option ExternalUse :=
  if d.tag = externalTag then
    match Overview.parse? d.overview with
    | some o =>
      if o.package.isLocal then none
      else some ⟨o.symbol, o.package, o.module, d.region, relativeName d.file workdir⟩
    | none => none
  else none

def events (d : Diagnostic) : List Event :=
  if d.tag = externalTag ∧ Overview.parse? d.overview = none then
    [.warn ("couldn't parse message: \"" ++ d.overview ++ "\"")]
  else []

end Diagnostic

def scrape (output workdir : String) : Report where
  uses := (diagnostics output).filterMap (Diagnostic.use? workdir)
  files := nameSet ((diagnostics output).map fun d => relativeName d.file workdir)

def scrapeEvents (output : String) : List Event := (diagnostics output).flatMap Diagnostic.events

end UsageGraph
