import UsageGraph.Fault
import UsageGraph.Text.Blank

/-! # Package ids

A package, and equally a repository, is named by an owner and a name.

* `PackageId.fullName`: the text `owner/name`.
* `PackageId.parse`: reads that text; both parts are non-empty and the name has no slash.
* `PackageId.isLocal`: the id that a compiler reports for modules of the package it compiles.
-/

namespace UsageGraph
open Text
set_option autoImplicit false

structure PackageId where
  owner : String
  name : String
  deriving DecidableEq, Repr

namespace PackageId

def fullName (id : PackageId) : String := id.owner ++ "/" ++ id.name

/-- The id whose text is `s`, if there is one. -/
def parse? (s : String) : Option PackageId :=
  match splitOnce '/' s.toList with
  | some (owner, name) =>
    if owner = [] ∨ name = [] ∨ '/' ∈ name then none
    else some ⟨String.ofList owner, String.ofList name⟩
  | none => none

def parse (s : String) : Except Fault PackageId :=
  match parse? s with
  | some id => .ok id
  | none => .error (.config ("invalid package id \"" ++ s ++ "\", expected owner/name"))

def isLocal (id : PackageId) : Bool := id.owner == "user" && id.name == "project"

end PackageId
end UsageGraph
