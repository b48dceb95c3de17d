import UsageGraph.Document.Decode

/-! # Regions of a source file

* `Position`, `Region`: lines and columns as a compiler reports them.
* `Region.lineAnchor`: the fragment that points a browser at the lines.
* `Region.ofDocument?`, `Region.toDocument`: the JSON form.
-/

namespace UsageGraph
set_option autoImplicit false

structure Position where
  line : Nat
  column : Nat
  deriving DecidableEq, Repr

/-- Lines and columns fit 32 bits. -/
def maxCoordinate : Nat := UInt32.size - 1

namespace Position

def ofDocument? (d : Document) : Option Position := do
  let f ← d.fields? ["line", "column"]
  let line ← f.required "line" (Document.nat? maxCoordinate)
  let column ← f.required "column" (Document.nat? maxCoordinate)
  return ⟨line, column⟩

def toDocument (p : Position) : Document :=
  .ofFields [("line", .ofNat p.line), ("column", .ofNat p.column)]

def render (p : Position) : String := toString p.line ++ ":" ++ toString p.column

end Position

structure Region where
  start : Position
  stop : Position
  deriving DecidableEq, Repr

namespace Region

/-- One line is named alone, several by the first and the last. -/
def lineAnchor (r : Region) : String :=
  if r.start.line = r.stop.line then "L" ++ toString r.start.line
  else "L" ++ toString r.start.line ++ "-L" ++ toString r.stop.line

def ofDocument? (d : Document) : Option Region := do
  let f ← d.fields? ["start", "end"]
  let start ← f.required "start" Position.ofDocument?
  let stop ← f.required "end" Position.ofDocument?
  return ⟨start, stop⟩

def toDocument (r : Region) : Document :=
  .ofFields [("start", r.start.toDocument), ("end", r.stop.toDocument)]

end Region
end UsageGraph
