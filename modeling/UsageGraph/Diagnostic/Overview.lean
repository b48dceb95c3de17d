import UsageGraph.Package.Id
import UsageGraph.Text.Blank

/-! # Overviews

The message of a diagnostic that is about a value of another module names that value, and the
package and the module that define it, in a fixed form.

* `Overview.render`: the message form, for a choice of delimiters around the symbol.
* `Overview.parse?`: the first place where the form occurs. Each of the four parts reaches as far
  as it can; line feeds count as spaces.
-/

namespace UsageGraph
open Text
set_option autoImplicit false

structure Overview where
  symbol : String
  package : PackageId
  module : String
  deriving DecidableEq, Repr

namespace Overview

/-! ## The message form -/

def beforeSymbol : List Char := "External value ".toList
def beforeOwner : List Char := " exists!!Canonical \x7b_package = Name \x7b_user = \"".toList
def beforeProject : List Char := "\", _project = \"".toList
def beforeModule : List Char := "\"\x7d, _module = \"".toList
def afterModule : List Char := "\"\x7d".toList

def opens (c : Char) : Bool := c == '(' || c == '`'
def closes (c : Char) : Bool := c == ')' || c == '`'

def renderChars (o : Overview) (opening closing : Char) : List Char :=
  beforeSymbol ++ opening :: o.symbol.toList ++ closing :: beforeOwner ++
    o.package.owner.toList ++ beforeProject ++ o.package.name.toList ++ beforeModule ++
    o.module.toList ++ afterModule

def render (o : Overview) (opening closing : Char) : String :=
  String.ofList (o.renderChars opening closing)

/-! ## Finding it -/

section Matching
variable {α : Type}

/-- The longest beginning of the text after which `next` succeeds, with what `next` gives. -/
def longest (next : List Char → Option α) : List Char → Option (List Char × α)
  | [] => (next []).map fun a => ([], a)
  | c :: cs =>
    match longest next cs with
    | some (front, a) => some (c :: front, a)
    | none => (next (c :: cs)).map fun a => ([], a)

/-- `next` on what follows a literal text. -/
def after (literal : List Char) (next : List Char → Option α) (s : List Char) : Option α :=
  (stripPrefix? literal s).bind next

/-- `next` on what follows one character of a class. -/
def afterOne (isIn : Char → Bool) (next : List Char → Option α) : List Char → Option α
  | [] => none
  | c :: cs => if isIn c then next cs else none

/-- The first place from which `next` succeeds. -/
def search (next : List Char → Option α) : List Char → Option α
  | [] => next []
  | c :: cs =>
    match next (c :: cs) with
    | some a => some a
    | none => search next cs

end Matching

/-- The parts, from the place where the form starts. -/
def matchHere : List Char → Option (List Char × List Char × List Char × List Char) :=
  after beforeSymbol <| afterOne opens <|
    longest <| afterOne closes <| after beforeOwner <|
    longest <| after beforeProject <|
    longest <| after beforeModule <| fun s =>
      (longest (after afterModule fun _ => some ()) s).map Prod.fst

def flatten (s : String) : List Char := s.toList.map fun c => if c = '\n' then ' ' else c

def parse? (s : String) : Option Overview :=
  (search matchHere (flatten s)).map fun (symbol, owner, project, module) =>
    ⟨String.ofList symbol, ⟨String.ofList owner, String.ofList project⟩, String.ofList module⟩

end Overview
end UsageGraph
