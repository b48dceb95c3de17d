import UsageGraph.History.Interval
import UsageGraph.Table

/-! # The timeline of a repository

What a repository declares, commit by commit, as intervals.

* `Timeline`: the intervals that still last, by dependency, and those that have ended.
* `Timeline.advance`: takes in the declarations of one commit. An interval lasts while its
  dependency resolves to the same version; an interval that ends as it starts is none.
* `Timeline.intervals`: all intervals, by dependency and start.
-/

namespace UsageGraph
set_option autoImplicit false

structure OpenInterval where
  version : String
  range : String
  start : Instant
  deriving DecidableEq, Repr

structure Timeline where
  current : Table OpenInterval
  /-- In the order in which they ended. -/
  ended : List Interval
  deriving DecidableEq, Repr

namespace Timeline

def empty : Timeline := ⟨.empty, []⟩

section
variable (owner : String) (at_ : Instant)

def toInterval (dependency : String) (o : OpenInterval) (stop : Option Instant) : Interval :=
  ⟨owner, dependency, o.version, o.range, o.start, stop⟩

/-- Ends the interval of a dependency, if one lasts. -/
def close (t : Timeline) (dependency : String) : Timeline :=
  match t.current.get? dependency with
  | none => t
  | some o =>
    { current := t.current.erase dependency
      ended := if o.start < at_ then t.ended ++ [toInterval owner dependency o (some at_)]
        else t.ended }

/-- A dependency is declared with a range that stands for a version. -/
def declare (t : Timeline) (dependency range version : String) : Timeline :=
  if (t.current.get? dependency).any fun o => o.version == version then t
  else
    let t := close owner at_ t dependency
    { t with current := t.current.insert dependency ⟨version, range, at_⟩ }

/-- Ends the intervals of the dependencies that are no longer declared. -/
def drop (t : Timeline) (declared : Table String) : Timeline :=
  ((t.current.map Prod.fst).filter fun d => !declared.contains d).foldl (close owner at_) t

def advance (resolve : String → String → String) (declared : Table String) (t : Timeline) :
    Timeline :=
  drop owner at_
    (declared.entries.foldl (fun t p => declare owner at_ t p.1 p.2 (resolve p.1 p.2)) t) declared

end

/-- By dependency, then by start. -/
def before (a b : Interval) : Bool :=
  a.dependency < b.dependency || (a.dependency == b.dependency && decide (a.start ≤ b.start))

def intervals (owner : String) (t : Timeline) : List Interval :=
  (t.ended ++ t.current.map fun p => toInterval owner p.1 p.2 none).mergeSort before

end Timeline
end UsageGraph
