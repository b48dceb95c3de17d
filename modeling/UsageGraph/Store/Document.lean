import UsageGraph.Document.Printing
import UsageGraph.Store.Basic

/-! # The JSON form of a store

* `Store.toDocument`, `Store.ofDocument?`: the tables of a store as a record, by their names.
* `Store.render`, `Store.parse?`: the text that is kept in a file. A file that holds nothing holds
  the empty store.
-/

namespace UsageGraph
set_option autoImplicit false

/-! ## Tables -/

def Document.ofTable {α : Type} (f : α → Document) (t : Table α) : Document :=
  .ofFields (t.map fun p => (p.1, f p.2))

def Document.member? {α : Type} (read : Document → Option α) (m : Option String × Document) :
    Option (String × α) := do
  let key ← m.1
  let value ← read m.2
  return (key, value)

def Document.table? {α : Type} (read : Document → Option α) : Document → Option (Table α)
  | .record members => (members.mapM (member? read)).map Table.ofList
  | _ => none

/-! ## Rows -/

namespace RepositoryRow

def toDocument (r : RepositoryRow) : Document :=
  .ofFields [("owner", .ofText r.owner), ("name", .ofText r.name),
    ("stars", .ofOption .ofInstant r.stars), ("license", .ofOption .ofText r.license),
    ("lastUpdated", .ofOption .ofText r.lastUpdated),
    ("created", .ofOption .ofInstant r.lifetime.created),
    ("lastCommit", .ofOption .ofInstant r.lifetime.lastCommit), ("imported", .bool r.imported)]

def flag? : Document → Option Bool
  | .bool b => some b
  | _ => none

def ofDocument? (d : Document) : Option RepositoryRow := do
  let f ← d.fields? ["owner", "name", "stars", "license", "lastUpdated", "created", "lastCommit",
    "imported"]
  let owner ← f.required "owner" Document.text?
  let name ← f.required "name" Document.text?
  let stars ← f.optional "stars" Document.instant?
  let license ← f.optional "license" Document.text?
  let lastUpdated ← f.optional "lastUpdated" Document.text?
  let created ← f.optional "created" Document.instant?
  let lastCommit ← f.optional "lastCommit" Document.instant?
  let imported ← f.required "imported" flag?
  return ⟨owner, name, stars, license, lastUpdated, ⟨created, lastCommit⟩, imported⟩

end RepositoryRow

namespace FileRow

def toDocument (r : FileRow) : Document :=
  .ofFields [("repo", .ofText r.repo), ("path", .ofText r.path),
    ("module", .ofOption .ofText r.module)]

def ofDocument? (d : Document) : Option FileRow := do
  let f ← d.fields? ["repo", "path", "module"]
  let repo ← f.required "repo" Document.text?
  let path ← f.required "path" Document.text?
  let module ← f.optional "module" Document.text?
  return ⟨repo, path, module⟩

end FileRow

namespace ReferenceRow

def toDocument (r : ReferenceRow) : Document :=
  .ofFields [("repo", .ofText r.repo), ("referer", .ofText r.referer),
    ("referred", .ofText r.referred), ("symbol", .ofText r.symbolId),
    ("version", .ofOption .ofText r.version), ("region", r.region.toDocument),
    ("url", .ofText r.url)]

def ofDocument? (d : Document) : Option ReferenceRow := do
  let f ← d.fields? ["repo", "referer", "referred", "symbol", "version", "region", "url"]
  let repo ← f.required "repo" Document.text?
  let referer ← f.required "referer" Document.text?
  let referred ← f.required "referred" Document.text?
  let symbol ← f.required "symbol" Document.text?
  let version ← f.optional "version" Document.text?
  let region ← f.required "region" Region.ofDocument?
  let url ← f.required "url" Document.text?
  return ⟨repo, referer, referred, symbol, version, region, url⟩

end ReferenceRow

/-! ## Stores -/

namespace Store

def toDocument (s : Store) : Document :=
  .ofFields [("repositories", .ofTable RepositoryRow.toDocument s.repositories),
    ("files", .ofTable FileRow.toDocument s.files), ("symbols", .ofTable .ofText s.symbols),
    ("references", .ofTable ReferenceRow.toDocument s.references),
    ("intervals", .list (s.intervals.map Interval.toDocument))]

def ofDocument? (d : Document) : Option Store := do
  let f ← d.fields? ["repositories", "files", "symbols", "references", "intervals"]
  let repositories ← f.required "repositories" (Document.table? RepositoryRow.ofDocument?)
  let files ← f.required "files" (Document.table? FileRow.ofDocument?)
  let symbols ← f.required "symbols" (Document.table? Document.text?)
  let references ← f.required "references" (Document.table? ReferenceRow.ofDocument?)
  let intervals ← f.required "intervals" (Document.items? Interval.ofDocument?)
  return ⟨repositories, files, symbols, references, intervals⟩

def render (s : Store) : String := s.toDocument.compact

def parse? (content : String) : Option Store :=
  if content = "" then some .empty else (Document.parse? content).bind ofDocument?

end Store
end UsageGraph
