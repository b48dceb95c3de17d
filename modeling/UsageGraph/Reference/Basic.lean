import UsageGraph.Diagnostic.Region

/-! # References

* `FileRef`: a file of a repository, with the module that it declares.
* `Reference`: a use of a symbol in one file that another file defines.
* `FileRef.id`, `Reference.symbolId`: the keys under which files and symbols are stored.
* `Reference.toDocument`, `Reference.ofDocument?`: the JSON form.
-/

namespace UsageGraph
open Text
set_option autoImplicit false

structure FileRef where
  /-- The full name of the repository. -/
  repo : String
  /-- Relative to the root of the repository. -/
  file : String
  module : Option String
  deriving DecidableEq, Repr

namespace FileRef

def id (f : FileRef) : String := f.repo ++ "/" ++ f.file

def toDocument (f : FileRef) : Document :=
  .ofFields [("repo", .ofText f.repo), ("file", .ofText f.file),
    ("module", .ofOption .ofText f.module)]

def ofDocument? (d : Document) : Option FileRef := do
  let f ← d.fields? ["repo", "file", "module"]
  let repo ← f.required "repo" Document.text?
  let file ← f.required "file" Document.text?
  let module ← f.optional "module" Document.text?
  return ⟨repo, file, module⟩

end FileRef

structure Reference where
  /-- The locator of the use. -/
  id : String
  symbol : String
  region : Region
  url : String
  /-- The version of the referred package; a repository that refers to itself has none. -/
  version : Option String
  referer : FileRef
  referred : FileRef
  deriving DecidableEq, Repr

/-- The text before its last dot; without a dot, all of it. -/
def withoutExtension (s : String) : String :=
  match splitLast '.' s.toList with
  | some (stem, _) => String.ofList stem
  | none => s

namespace Reference

def symbolId (r : Reference) : String := withoutExtension r.referred.id ++ "." ++ r.symbol

def toDocument (r : Reference) : Document :=
  .ofFields [("id", .ofText r.id), ("symbol", .ofText r.symbol), ("region", r.region.toDocument),
    ("url", .ofText r.url), ("version", .ofOption .ofText r.version),
    ("referer", r.referer.toDocument), ("referred", r.referred.toDocument)]

def ofDocument? (d : Document) : Option Reference := do
  let f ← d.fields? ["id", "symbol", "region", "url", "version", "referer", "referred"]
  let id ← f.required "id" Document.text?
  let symbol ← f.required "symbol" Document.text?
  let region ← f.required "region" Region.ofDocument?
  let url ← f.required "url" Document.text?
  let version ← f.optional "version" Document.text?
  let referer ← f.required "referer" FileRef.ofDocument?
  let referred ← f.required "referred" FileRef.ofDocument?
  return ⟨id, symbol, region, url, version, referer, referred⟩

end Reference
end UsageGraph
