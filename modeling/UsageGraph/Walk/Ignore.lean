import UsageGraph.FileTree.Access
import UsageGraph.Walk.Glob

/-! # Ignore rules

Files that list what is not to be looked at, line by line.

* `IgnoreRule`, `IgnoreRule.parse?`: one line.
* `Verdict`: what rules say about a path; among the rules of a file the last that matches counts.
* `rulesIn`: the rules in a file of a tree.
* `verdict?`: what all rules that apply to a location say. A rule applies below the directory that it
  is found in, and the nearest directory counts first. Rules for every program go before those for
  version control, and these count only inside a work tree.

Which files hold rules and which of them counts is as the library `ignore` documents it. Rules of the
user that lie outside of the tree are left out.
-/

namespace UsageGraph
open Text
set_option autoImplicit false

/-! ## Rules -/

structure IgnoreRule where
  /-- The rule brings paths back. -/
  whitelist : Bool
  onlyDirectories : Bool
  glob : Glob
  deriving Repr

inductive Verdict where
  | ignored
  | whitelisted
  deriving DecidableEq, Repr

namespace IgnoreRule

/-- The line without blanks at its end, unless the last one is escaped. -/
def trimLine (line : List Char) : List Char :=
  if line.getLast? = some ' ' ∧ line.dropLast.getLast? = some '\\' then line else trimEnd line

/-- What stands after an escape, a negation and a slash in front, and which of the latter two were
there. -/
def cutFront : List Char → Bool × Bool × List Char
  | '\\' :: '!' :: s => (false, false, '!' :: s)
  | '\\' :: '#' :: s => (false, false, '#' :: s)
  | '!' :: '/' :: s => (true, true, s)
  | '!' :: s => (true, false, s)
  | '/' :: s => (false, true, s)
  | s => (false, false, s)

/-- A slash at the end, perhaps escaped, is cut off. -/
def cutSlash (s : List Char) : Bool × List Char :=
  if s.getLast? = some '/' then
    let s := s.dropLast
    (true, if s.getLast? = some '\\' then s.dropLast else s)
  else (false, s)

def anyDepth : List Char := ['*', '*', '/']

/-- A pattern without a slash matches at any depth. -/
def deepen (anchored : Bool) (s : List Char) : List Char :=
  if anchored || s.contains '/' || s == ['*', '*'] then s else anyDepth ++ s

/-- What is below a directory does not include the directory. -/
def properBelow (s : List Char) : List Char :=
  if ['/', '*', '*'].isSuffixOf s then s ++ ['/', '*'] else s

def parse? (line : String) : Option IgnoreRule :=
  if line.toList.head? = some '#' then none
  else
    let s := trimLine line.toList
    if s = [] then none
    else
      let (whitelist, anchored, s) := cutFront s
      let (onlyDirectories, s) := cutSlash s
      (Glob.parse? (String.ofList (properBelow (deepen anchored s)))).map fun glob =>
        ⟨whitelist, onlyDirectories, glob⟩

def applies (r : IgnoreRule) (isDirectory : Bool) (path : String) : Bool :=
  (!r.onlyDirectories || isDirectory) && r.glob.matchesPath path

def verdict (r : IgnoreRule) : Verdict := if r.whitelist then .whitelisted else .ignored

end IgnoreRule

/-- The last rule that applies decides. -/
def decideBy? (rules : List IgnoreRule) (isDirectory : Bool) (path : String) : Option Verdict :=
  (rules.reverse.find? fun r => r.applies isDirectory path).map IgnoreRule.verdict

/-! ## Files of rules -/

def splitBytes : Bytes → List Bytes
  | [] => [[]]
  | b :: bs =>
    if b = 10 then [] :: splitBytes bs
    else
      match splitBytes bs with
      | l :: ls => (b :: l) :: ls
      | [] => [[b]]

/-- The first lines of a content that are all text. -/
def leadingLines : Content → List String
  | .text s => lines s
  | .binary bs => (((splitBytes bs).map decode?).takeWhile Option.isSome).filterMap fun l =>
      l.map fun s => String.ofList (dropReturn s.toList)

def withoutMark : List String → List String
  | l :: ls => String.ofList (l.toList.dropWhile (· = '\ufeff')) :: ls
  | [] => []

def rulesOf (c : Content) : List IgnoreRule :=
  (withoutMark (leadingLines c)).filterMap IgnoreRule.parse?

def rulesIn (t : FileTree) (path : String) : List IgnoreRule :=
  match t.readContent path with
  | .ok c => rulesOf c
  | .error _ => []

/-! ## Work trees -/

def repositoryName : String := ".git"

def isWorkTree (t : FileTree) (dir : Location) : Bool := (t.get? (dir ++ [repositoryName])).isSome

def firstLine? (t : FileTree) (path : String) : Option (List Char) :=
  match t.readContent path with
  | .ok c => (leadingLines c).head?.map String.toList
  | .error _ => none

/-- Where the repository of a work tree is kept: in the work tree, or where a file leads to. -/
def repositoryDir? (t : FileTree) (dir : Location) : Option String :=
  let own := FileTree.pathOf (dir ++ [repositoryName])
  if t.isFile own then do
    let line ← firstLine? t own
    let real := String.ofList (← stripPrefix? "gitdir: ".toList line)
    let common ← firstLine? t (Path.join real "commondir")
    if common.head? = some '.' then return Path.join real (String.ofList common)
    else return String.ofList common
  else some own

/-! ## All rules -/

/-- The directories above a location, the nearest one first. -/
def dirsAbove (at_ : Location) : List Location :=
  (List.range at_.length).reverse.map at_.take

/-- The directories up to the nearest work tree; none if there is no work tree. -/
def dirsInWorkTree (t : FileTree) (dirs : List Location) : List Location :=
  if dirs.any (isWorkTree t) then
    let inner := dirs.takeWhile fun d => !isWorkTree t d
    dirs.take (inner.length + 1)
  else []

/-- What the nearest of some files with a rule for the location says. -/
def nearest? (t : FileTree) (at_ : Location) (isDirectory : Bool)
    (file : Location → Option String) (dirs : List Location) : Option Verdict :=
  dirs.findSome? fun d => (file d).bind fun path =>
    decideBy? (rulesIn t path) isDirectory (join "/" (at_.drop d.length))

def verdict? (t : FileTree) (at_ : Location) (isDirectory : Bool) : Option Verdict :=
  let dirs := dirsAbove at_
  let workTree := dirsInWorkTree t dirs
  let inDir (name : String) (d : Location) : Option String := some (FileTree.pathOf (d ++ [name]))
  nearest? t at_ isDirectory (inDir ".ignore") dirs <|>
    nearest? t at_ isDirectory (inDir ".gitignore") workTree <|>
    nearest? t at_ isDirectory
      (fun d => (repositoryDir? t d).map fun r => Path.join r "info/exclude") workTree

end UsageGraph
