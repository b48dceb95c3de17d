import UsageGraph.Document.Decode
import UsageGraph.Fault
import UsageGraph.Path.Basic
import UsageGraph.Version.Range

/-! # Package manifests

What a package declares about itself, in a file of one of two names.

* `Manifest.parse`: reads the text of a manifest.
* `dependencyTable?`: the declared ranges, as one table or split into direct and indirect ones.
* `Manifest.checkLanguage`: whether a language version satisfies the declared one.
-/

namespace UsageGraph
open Text
set_option autoImplicit false

/-- Manifest file names, in the order in which they are looked for. -/
def manifestNames : List String := ["elm-package.json", "elm.json"]

/-- The directory that the compiler and the package installer write to. -/
def buildDir : String := "elm-stuff"

structure Manifest where
  version : Option String
  elmVersion : Option String
  /-- In declaration order. -/
  sourceDirectories : List String
  /-- Range by package. -/
  dependencies : Table String
  path : String
  deriving DecidableEq, Repr

/-! ## Dependencies -/

/-- Direct and indirect ranges apart; a direct range overrides an indirect one. -/
def splitTable? (d : Document) : Option (Table String) := do
  let f ← match d with
    | .record _ => d.fields? ["direct", "indirect"]
    | _ => none
  let direct ← f.defaulted "direct" Document.textTable? .empty
  let indirect ← f.defaulted "indirect" Document.textTable? .empty
  return Table.override indirect direct

/-- The lists and records that are open around the dependencies of a manifest. -/
def dependencyDepth : Nat := 1

def dependencyTable? (d : Document) : Option (Table String) :=
  if d.isKept (Document.nestingLimit - dependencyDepth) then
    d.textTable? <|> splitTable? d
  else none

/-! ## Manifests -/

namespace Manifest

/-- The directories that stand for a missing or empty list of them. -/
def defaultDirectories (path : String) : List String :=
  if Path.fileName? path = some "elm-package.json".toList then ["."] else ["src"]

def ofDocument? (path : String) (d : Document) : Option Manifest := do
  let f ← d.fields? ["version", "source-directories", "dependencies", "elm-version"]
  let version ← f.optional "version" Document.text?
  let directories ← f.optional "source-directories" Document.texts?
  let dependencies ← f.optional "dependencies" dependencyTable?
  let elmVersion ← f.optional "elm-version" Document.text?
  return {
    version := version
    elmVersion := elmVersion
    sourceDirectories :=
      match directories with
      | some (dir :: dirs) => dir :: dirs
      | _ => defaultDirectories path
    dependencies := dependencies.getD .empty
    path := path }

/-- The path says which directories are the default, and names the file in a fault. -/
def parse (content path : String) : Except Fault Manifest :=
  match (Document.parse? content).bind (ofDocument? path) with
  | some m => .ok m
  | none => .error (.manifestInvalid (.malformed path))

/-! ## The language version -/

/-- Whether `current` satisfies a declared range or version; `none` if it is neither. -/
def admits? (required : String) (current : Version) : Option Bool :=
  match VersionRange.parse? required with
  | some range => some (range.contains current)
  | none => (Version.parse? (trim required)).map fun exact => decide (exact = current)

/-- A manifest that declares no language version accepts every one. -/
def checkLanguage (m : Manifest) (current : Version) : Except Fault Unit :=
  match m.elmVersion with
  | none => .ok ()
  | some required =>
    match admits? required current with
    | none => .error (.manifestInvalid (.unreadableLanguage required))
    | some true => .ok ()
    | some false => .error (.manifestInvalid (.languageMismatch current.render required))

end Manifest
end UsageGraph
