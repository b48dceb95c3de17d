import UsageGraph.Text.Blank

/-! # Paths as text

A path is a text; slashes part its components. Empty components count for nothing, and neither
does a dot, unless it is the first component of a relative path.

* `Path.Part`, `Path.parts`, `Path.ofParts`: the components of a path, and a path with given ones.
* `Path.join`: one path below another; an absolute path stands for itself.
* `Path.parent?`, `Path.fileName?`, `Path.stem?`, `Path.extension?`: the usual pieces.
* `Path.stripPrefix?`, `Path.startsWith`: comparison component by component.
* `Path.absolute?`: the path without dots, starting from a working directory if it is relative. That
  there is such a directory is taken for granted: nothing tells a process here that its own is gone.
-/

namespace UsageGraph.Path
open Text
set_option autoImplicit false

/-! ## Components -/

inductive Part where
  | root
  | here
  | up
  | name (text : List Char)
  deriving DecidableEq, Repr

def Part.ofText (s : List Char) : Part :=
  if s = ['.'] then .here else if s = ['.', '.'] then .up else .name s

def Part.text : Part → List Char
  | root => ['/']
  | here => ['.']
  | up => ['.', '.']
  | name s => s

def isAbsolute (p : String) : Bool := p.toList.head? == some '/'

/-- What stands between the slashes. -/
def segments (p : List Char) : List Part := ((splitAll '/' p).filter (· ≠ [])).map .ofText

def parts (p : String) : List Part :=
  let segs := segments p.toList
  if isAbsolute p then .root :: segs.filter (· ≠ .here)
  else if segs.head? = some .here then .here :: segs.filter (· ≠ .here)
  else segs.filter (· ≠ .here)

def joinChars (ps : List (List Char)) : List Char := (ps.intersperse ['/']).flatten

def ofParts : List Part → String
  | .root :: ps => String.ofList ('/' :: joinChars (ps.map Part.text))
  | ps => String.ofList (joinChars (ps.map Part.text))

/-! ## Below and above -/

def endsInSlash (p : String) : Bool := p.toList.getLast? == some '/'

def join (base p : String) : String :=
  if isAbsolute p then p
  else if base.toList = [] then p
  else if endsInSlash base then base ++ p
  else base ++ "/" ++ p

def parent? (p : String) : Option String :=
  match (parts p).getLast? with
  | none | some .root => none
  | some _ => some (ofParts (parts p).dropLast)

/-- The path and every path above it, the nearest first. -/
def ancestors (p : String) : List String :=
  let ps := parts p
  let above := (List.range ps.length).reverse.map fun n => ofParts (ps.take n)
  p :: (if isAbsolute p then above.dropLast else above)

/-! ## Names -/

def fileName? (p : String) : Option (List Char) :=
  match (parts p).getLast? with
  | some (.name s) => some s
  | _ => none

/-- A name is cut at its last dot, unless that dot is its first character. -/
def cutName (s : List Char) : List Char × Option (List Char) :=
  match splitLast '.' s with
  | some (a, b) => if a = [] then (s, none) else (a, some b)
  | none => (s, none)

def stem? (p : String) : Option (List Char) := (fileName? p).map fun s => (cutName s).1

def extension? (p : String) : Option (List Char) := (fileName? p).bind fun s => (cutName s).2

/-! ## Comparison -/

def stripParts? : List Part → List Part → Option (List Part)
  | [], ps => some ps
  | _ :: _, [] => none
  | b :: bs, p :: ps => if b = p then stripParts? bs ps else none

/-- The components of `p` after those of `base`, if it starts with them. -/
def stripPrefix? (base p : String) : Option (List Part) := stripParts? (parts base) (parts p)

def startsWith (base p : String) : Bool := (stripPrefix? base p).isSome

/-! ## Absolute paths -/

/-- Two slashes in front stay two; any other number of them counts as one. -/
def doubledRoot (p : String) : Bool :=
  match p.toList with
  | '/' :: '/' :: '/' :: _ => false
  | '/' :: '/' :: _ => true
  | _ => false

/-- An empty path cannot be made absolute, and nothing else stands in the way. A slash at the end is
kept. -/
def absolute? (cwd p : String) : Option String :=
  if p.toList = [] then none
  else
    let ps := (parts p).filter (· ≠ .here)
    let whole := ofParts (if isAbsolute p then ps else parts cwd ++ ps)
    let whole := if doubledRoot p then "/" ++ whole else whole
    some (if endsInSlash p && !endsInSlash whole then whole ++ "/" else whole)

/-- The names among the components, parted by slashes. -/
def namesOnly (ps : List Part) : String :=
  String.ofList (joinChars (ps.filterMap fun
    | .name s => some s
    | _ => none))

end UsageGraph.Path
