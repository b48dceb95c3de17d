import UsageGraph.Fault
import UsageGraph.Path.Basic
import UsageGraph.Text.Utf8

/-! # File trees

* `Location`: where a file is, as the names from the root directory down.
* `Content`: what a file holds; bytes that are no text are kept as bytes.
* `FileTree`: files and directories by location, and the directory that relative paths start from.
* `FileTree.get?`, `FileTree.put`, `FileTree.erase`: one entry, or all entries from one on down.
* `FileTree.locate`: the location that a path leads to. All directories on the way have to be there;
  what the path ends at need not be.

A tree has files and directories and nothing else: no symbolic links, so that a location has one name,
and no permissions. Names are texts; there is no name whose bytes are not UTF-8. What is shown of trees
is shown of such trees alone.
-/

namespace UsageGraph
open Text
set_option autoImplicit false

abbrev Location := List String

/-! ## Entries -/

inductive Content where
  | text (s : String)
  /-- Bytes that are not well-formed UTF-8. -/
  | binary (bytes : Bytes)
  deriving DecidableEq, Repr

namespace Content

def ofBytes (bytes : Bytes) : Content :=
  match decode? bytes with
  | some s => text s
  | none => binary bytes

def bytes : Content → Bytes
  | text s => encode s
  | binary bytes => bytes

end Content

inductive Entry where
  | file (content : Content)
  | directory
  deriving DecidableEq, Repr

structure FileTree where
  /-- In the order of the locations. The root directory has no entry of its own. -/
  entries : List (Location × Entry)
  cwd : String
  deriving Repr

namespace FileTree

/-! ## Entries by location -/

def get? (t : FileTree) (at_ : Location) : Option Entry :=
  if at_ = [] then some .directory else t.entries.lookup at_

def isDirectoryAt (t : FileTree) (at_ : Location) : Bool := t.get? at_ == some .directory

def insert (at_ : Location) (e : Entry) : List (Location × Entry) → List (Location × Entry)
  | [] => [(at_, e)]
  | (l, x) :: rest =>
    if at_ = l then (at_, e) :: rest
    else if at_ < l then (at_, e) :: (l, x) :: rest
    else (l, x) :: insert at_ e rest

def put (t : FileTree) (at_ : Location) (e : Entry) : FileTree :=
  { t with entries := insert at_ e t.entries }

/-- Removes a location and everything below it. -/
def erase (t : FileTree) (at_ : Location) : FileTree :=
  { t with entries := t.entries.filter fun p => !at_.isPrefixOf p.1 }

/-- Removes everything below a location. -/
def eraseBelow (t : FileTree) (at_ : Location) : FileTree :=
  { t with entries := t.entries.filter fun p => !(at_.isPrefixOf p.1 && decide (p.1 ≠ at_)) }

/-- What lies below a location, by the names from there on down. -/
def below (t : FileTree) (at_ : Location) : List (Location × Entry) :=
  t.entries.filterMap fun p =>
    if at_.isPrefixOf p.1 && decide (p.1 ≠ at_) then some (p.1.drop at_.length, p.2) else none

def empty (cwd : String) : FileTree := ⟨[], cwd⟩

/-! ## Locations of paths -/

/-- The greatest number of bytes in a name. -/
def maxNameBytes : Nat := 255

def follow (at_ : Location) : Path.Part → Except IoCause Location
  | .root => .ok []
  | .here => .ok at_
  | .up => .ok at_.dropLast
  | .name s =>
    let name := String.ofList s
    if maxNameBytes < name.utf8ByteSize then .error .longName else .ok (at_ ++ [name])

/-- Every step starts from a directory. -/
def followAll (t : FileTree) (at_ : Location) : List Path.Part → Except IoCause Location
  | [] => .ok at_
  | p :: ps =>
    match t.get? at_ with
    | none => .error .notFound
    | some (.file _) => .error .notADirectory
    | some .directory =>
      match follow at_ p with
      | .ok next => followAll t next ps
      | .error e => .error e

/-- The steps of a path from the root directory on. -/
def steps (t : FileTree) (path : String) : List Path.Part :=
  if Path.isAbsolute path then Path.segments path.toList
  else Path.segments t.cwd.toList ++ Path.segments path.toList

def locateSteps (t : FileTree) (path : String) (ps : List Path.Part) : Except IoCause Location :=
  if path.toList = [] then .error .notFound
  else if '\x00' ∈ path.toList then .error .nullInPath
  else t.followAll [] ps

/-- A path with a slash at its end leads to a directory. -/
def locate (t : FileTree) (path : String) : Except IoCause Location :=
  t.locateSteps path (t.steps path ++ if Path.endsInSlash path then [.here] else [])

/-- A location as an absolute path. -/
def pathOf (at_ : Location) : String := "/" ++ join "/" at_

end FileTree
end UsageGraph
