import UsageGraph.FileTree.Basic

/-! # Reading and changing a file tree

All of these take paths, and fail as the operating system fails.

* `FileTree.entry`, `FileTree.isFile`, `FileTree.isDirectory`: what a path leads to.
* `FileTree.directory`: the absolute path of a directory.
* `FileTree.readText`: the text of a file.
* `FileTree.writeFile`: creates a file or replaces what it holds.
* `FileTree.createDirectory`: one directory in a directory that is there.
* `FileTree.removeDirectory`, `FileTree.remove`: a directory or a file with all that it holds.
* `FileTree.listing`: everything below a directory, as relative paths in byte order.
-/

namespace UsageGraph
open Text
set_option autoImplicit false

namespace FileTree

/-! ## Looking -/

def entry (t : FileTree) (path : String) : Except IoCause Entry := do
  let at_ ← t.locate path
  match t.get? at_ with
  | some e => .ok e
  | none => .error .notFound

def exists? (t : FileTree) (path : String) : Bool :=
  match t.entry path with
  | .ok _ => true
  | .error _ => false

def isFile (t : FileTree) (path : String) : Bool :=
  match t.entry path with
  | .ok (.file _) => true
  | _ => false

def isDirectory (t : FileTree) (path : String) : Bool :=
  match t.entry path with
  | .ok .directory => true
  | _ => false

/-- The absolute path of a directory that is there. -/
def directory (t : FileTree) (path : String) : Except IoCause String := do
  match ← t.entry path with
  | .directory => return pathOf (← t.locate path)
  | .file _ => .error .notADirectory

def readContent (t : FileTree) (path : String) : Except IoCause Content := do
  match ← t.entry path with
  | .file c => .ok c
  | .directory => .error .isADirectory

def readText (t : FileTree) (path : String) : Except IoCause String := do
  match ← t.readContent path with
  | .text s => .ok s
  | .binary _ => .error .notUtf8

/-! ## Changing -/

def writeFile (t : FileTree) (path : String) (content : Content) : Except IoCause FileTree := do
  let at_ ← t.locate path
  if t.isDirectoryAt at_ then .error .isADirectory
  else if Path.endsInSlash path then .error .isADirectory
  else .ok (t.put at_ (.file content))

/-- The directory above has to be there, and nothing may be there yet. -/
def createDirectory (t : FileTree) (path : String) : Except IoCause FileTree := do
  let at_ ← t.locateSteps path (t.steps path)
  match t.get? at_ with
  | some _ => .error .alreadyExists
  | none => .ok (t.put at_ .directory)

def removeDirectory (t : FileTree) (path : String) : Except IoCause FileTree := do
  match ← t.entry path with
  | .file _ => .error .notADirectory
  | .directory =>
    let at_ ← t.locate path
    if (Path.segments path.toList).getLast? = some .up then .ok (t.eraseBelow at_)
    else .ok (t.erase at_)

/-- Removes whatever is there; if nothing is, nothing changes. -/
def remove (t : FileTree) (path : String) : FileTree :=
  match t.locate path with
  | .ok at_ => if at_ = [] then t else t.erase at_
  | .error _ => t

/-! ## Listing -/

/-- Directories end in a slash. -/
def relativeName (p : Location × Entry) : String :=
  join "/" p.1 ++ (if p.2 = .directory then "/" else "")

def listing (t : FileTree) (path : String) : List String :=
  match t.locate path with
  | .ok at_ => ((t.below at_).map relativeName).mergeSort Text.le
  | .error _ => []

end FileTree
end UsageGraph
