import UsageGraph.Text.Blank
import UsageGraph.Text.WordChar

/-! # Module headers

* `declaredModule?`: the name in the first module header of a source text. A header starts a
  line: the word `module`, perhaps after `port` or `effect`, and a dotted name.
* `modulePath`: where the source file of a module lies below a source directory.

A header is what one regular expression matches, of the leftmost places the first and of the ways to
match there the one that is tried first, as the library `regex` documents it.
-/

namespace UsageGraph
open Text
set_option autoImplicit false

/-! ## Headers -/

/-- What follows a word and at least one blank after it. -/
def afterWord (word s : List Char) : Option (List Char) :=
  match stripPrefix? word s with
  | some (c :: rest) => if isBlank c then some (rest.dropWhile isBlank) else none
  | _ => none

def continuesName (c : Char) : Bool := isWord c || c == '.'

/-- A name starts with an ASCII letter. -/
def nameHere : List Char → Option (List Char)
  | [] => none
  | c :: s => if isAsciiLetter c then some (c :: s.takeWhile continuesName) else none

/-- The name in a header that starts right here. -/
def headerHere (s : List Char) : Option (List Char) :=
  let s := ((afterWord "port".toList s) <|> (afterWord "effect".toList s)).getD s
  (afterWord "module".toList s).bind nameHere

/-- The name in the first header from here on; `atStart` says that a line starts here. -/
def firstHeader (atStart : Bool) : List Char → Option (List Char)
  | [] => none
  | c :: s =>
    match if atStart then headerHere (c :: s) else none with
    | some name => some name
    | none => firstHeader (c == '\n') s

def declaredModule? (source : String) : Option String :=
  (firstHeader true source.toList).map String.ofList

/-! ## Paths -/

def sourceExtension : String := "elm"

def modulePath (module : String) : String :=
  String.ofList (module.toList.map fun c => if c = '.' then '/' else c) ++ "." ++ sourceExtension

end UsageGraph
