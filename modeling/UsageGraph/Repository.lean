import UsageGraph.Document.Decode
import UsageGraph.Package.Id

/-! # Repositories to import

* `Repository`: what the hosting service tells about a repository.
* `Repository.ofEntry?`: an entry of a repository list, which is a full name or a record.
* `Repository.parseList`: the text of such a list.
-/

namespace UsageGraph
set_option autoImplicit false

structure Repository where
  owner : String
  name : String
  stars : Option Nat
  lastUpdated : Option String
  license : Option String
  deriving DecidableEq, Repr

namespace Repository

def ofId (id : PackageId) : Repository := ⟨id.owner, id.name, none, none, none⟩

def id (r : Repository) : PackageId := ⟨r.owner, r.name⟩

def maxStars : Nat := UInt64.size - 1

def toDocument (r : Repository) : Document :=
  .ofFields [("owner", .ofText r.owner), ("name", .ofText r.name),
    ("stars", .ofOption .ofNat r.stars), ("lastUpdated", .ofOption .ofText r.lastUpdated),
    ("license", .ofOption .ofText r.license)]

def ofDocument? (d : Document) : Option Repository := do
  let f ← d.fields? ["owner", "name", "stars", "lastUpdated", "license"]
  let owner ← f.required "owner" Document.text?
  let name ← f.required "name" Document.text?
  let stars ← f.spare "stars" (Document.nat? maxStars)
  let lastUpdated ← f.spare "lastUpdated" Document.text?
  let license ← f.spare "license" Document.text?
  return ⟨owner, name, stars, lastUpdated, license⟩

/-! ## Lists -/

/-- A full name has to be a package id; a record is taken as it is. -/
inductive Entry where
  | fullName (s : String)
  | known (r : Repository)
  deriving DecidableEq, Repr

namespace Entry

def ofDocument? (d : Document) : Option Entry :=
  if d.isKept (Document.nestingLimit - 1) then
    match d with
    | .text s => s.map fullName
    | d => (Repository.ofDocument? d).map known
  else none

def repository : Entry → Except Fault Repository
  | fullName s => (PackageId.parse s).map ofId
  | known r => .ok r

end Entry

def parseList (content : String) : Except Fault (List Entry) :=
  match (Document.parse? content).bind (Document.items? Entry.ofDocument?) with
  | some entries => .ok entries
  | none => .error .json

end Repository
end UsageGraph
