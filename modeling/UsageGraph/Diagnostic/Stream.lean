import UsageGraph.Diagnostic.Region
import UsageGraph.Text.Blank

/-! # The diagnostics of a compiler run

A compiler prints one JSON document a line, among other text.

* `Diagnostic`: one record.
* `ofLine`: the records of a line, which is one record or a list of them; any other line holds
  none.
* `diagnostics`: the records of a whole output, in order.
-/

namespace UsageGraph
open Text
set_option autoImplicit false

structure Diagnostic where
  tag : String
  overview : String
  region : Region
  file : String
  deriving DecidableEq, Repr

namespace Diagnostic

def ofDocument? (d : Document) : Option Diagnostic := do
  let f ← d.fields? ["tag", "overview", "region", "file"]
  let tag ← f.required "tag" Document.text?
  let overview ← f.defaulted "overview" Document.text? ""
  let region ← f.required "region" Region.ofDocument?
  let file ← f.required "file" Document.text?
  return ⟨tag, overview, region, file⟩

/-- A list is read as a list of records before it is read as the fields of one. -/
def ofLine? (line : String) : Option (List Diagnostic) := do
  let d ← Document.parse? (trim line)
  if d.isKept Document.nestingLimit then
    d.items? ofDocument? <|> (ofDocument? d).map fun x => [x]
  else none

def ofLine (line : String) : List Diagnostic := (ofLine? line).getD []

end Diagnostic

def diagnostics (output : String) : List Diagnostic := (lines output).flatMap Diagnostic.ofLine

end UsageGraph
