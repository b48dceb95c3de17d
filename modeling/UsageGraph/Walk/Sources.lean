import UsageGraph.Crawl.Queue
import UsageGraph.Package.Manifest
import UsageGraph.Walk.Ignore

/-! # The sources of a checkout

* `isPassedOver`: hidden and ignored entries, and what the compiler builds.
* `walk`: the source files below a directory, in the order of their names component by component.
-/

namespace UsageGraph
set_option autoImplicit false

def isHidden (name : String) : Bool := name.toList.head? == some '.'

/-- A rule may bring back a hidden entry, but not the directory of the compiler. -/
def isPassedOver (t : FileTree) (at_ : Location) (isDirectory : Bool) : Bool :=
  let name := at_.getLast?.getD ""
  name == buildDir ||
    match verdict? t at_ isDirectory with
    | some .ignored => true
    | some .whitelisted => false
    | none => isHidden name

/-- No directory on the way from `root` down, nor the file itself, is passed over. -/
def isReached (t : FileTree) (root : Location) (names : List String) : Bool :=
  (List.range names.length).all fun n =>
    !isPassedOver t (root ++ names.take (n + 1)) (decide (n + 1 < names.length))

def sourceBelow? (t : FileTree) (root : Location) (p : Location × Entry) : Option String :=
  match p.2 with
  | .directory => none
  | .file _ =>
    let name := Text.join "/" p.1
    if isSourceFile name && isReached t root p.1 then some name else none

/-- The files as relative paths. A path that leads to a file stands for that file. -/
def walk (t : FileTree) (root : String) : List String :=
  match t.locate root with
  | .error _ => []
  | .ok at_ =>
    match t.get? at_ with
    | none => []
    | some (.file _) => if isSourceFile root then [""] else []
    | some .directory => (t.below at_).filterMap (sourceBelow? t at_)

end UsageGraph
