import UsageGraph.Module.Header
import UsageGraph.Path.Basic

/-! # The compile queue

Files wait to be compiled. A file that a compilation has covered needs no compilation of its own.

* `isSourceFile`, `isEntryFile`: which files are sources, and which of them start a program.
* `CompileQueue.ofFiles`: every file once, those that start a program in front.
* `CompileQueue.pop?`, `CompileQueue.resolve`: take the next file, drop covered ones.
-/

namespace UsageGraph
open Text
set_option autoImplicit false

/-! ## Files -/

def isSourceFile (path : String) : Bool := Path.extension? path == some sourceExtension.toList

/-- Stems of the files that start a program, in lower case. -/
def entryStems : List (List Char) := ["main".toList, "index".toList, "app".toList]

def isEntryFile (path : String) : Bool :=
  match Path.stem? path with
  | some stem => decide (stem.map Char.toLower ∈ entryStems)
  | none => false

/-! ## The queue -/

structure CompileQueue where
  /-- Files to compile, the next one first. -/
  pending : List String
  resolved : List String
  deriving Repr

/-- The first occurrence of each name. -/
def firstOccurrences : List String → List String
  | [] => []
  | x :: xs => x :: (firstOccurrences xs).filter (· ≠ x)

namespace CompileQueue

def ofFiles (files : List String) : CompileQueue where
  pending := firstOccurrences
    (files.filter isEntryFile ++ files.filter fun file => !isEntryFile file)
  resolved := []

def pop? (q : CompileQueue) : Option (String × CompileQueue) :=
  match q.pending with
  | [] => none
  | file :: rest => some (file, { q with pending := rest })

def resolve (q : CompileQueue) (files : List String) : CompileQueue where
  pending := q.pending.filter fun file => decide (file ∉ q.resolved ++ files)
  resolved := q.resolved ++ files

def isResolved (q : CompileQueue) (file : String) : Bool := decide (file ∈ q.resolved)

def isEmpty (q : CompileQueue) : Bool := q.pending.isEmpty

end CompileQueue
end UsageGraph
