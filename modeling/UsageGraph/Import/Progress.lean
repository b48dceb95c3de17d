/-! # Progress of an import

Counters of 64 bits. `start` sets them all back; the others only count on.

* `Progress.hasEstimate`: whether the time that is left can be told.
-/

namespace UsageGraph
set_option autoImplicit false

/-- What the import of one repository stored. -/
structure ImportSummary where
  references : UInt64
  intervals : UInt64
  /-- The history was too long to be replayed. -/
  historySkipped : Bool
  deriving DecidableEq, Repr

structure Progress where
  active : Bool
  total : UInt64
  /-- Finished imports, failed ones included. -/
  done : UInt64
  failed : UInt64
  references : UInt64
  intervals : UInt64
  deriving DecidableEq, Repr

namespace Progress

def initial : Progress := ⟨false, 0, 0, 0, 0, 0⟩

def start (total : UInt64) : Progress := ⟨true, total, 0, 0, 0, 0⟩

def succeed (p : Progress) (references intervals : UInt64) : Progress :=
  { p with
    done := p.done + 1
    references := p.references + references
    intervals := p.intervals + intervals }

def fail (p : Progress) : Progress := { p with done := p.done + 1, failed := p.failed + 1 }

def finish (p : Progress) : Progress := { p with active := false }

/-- While some repositories are done and some are not. -/
def hasEstimate (p : Progress) : Bool := p.active && decide (0 < p.done) && decide (p.done < p.total)

def succeeded (p : Progress) : UInt64 := p.done - p.failed

end Progress
end UsageGraph
