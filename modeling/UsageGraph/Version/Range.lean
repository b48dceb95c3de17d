import UsageGraph.Version.Basic

/-! # Version ranges

Expressions such as `1.0.0 <= v < 2.0.0`: two plain versions and a comparison on either side.

* `VersionRange.parse?`, `VersionRange.render`: the text form, blanks around it ignored.
* `VersionRange.contains`: membership in the total order of versions.
-/

namespace UsageGraph
open Text
set_option autoImplicit false

inductive Comparison where
  | less
  | lessEq
  deriving DecidableEq, Repr

namespace Comparison

def parse? (s : List Char) : Option Comparison :=
  if s = ['<'] then some .less else if s = ['<', '='] then some .lessEq else none

def render : Comparison → String
  | less => "<"
  | lessEq => "<="

def holds : Comparison → Version → Version → Bool
  | less, v, w => v.lt w
  | lessEq, v, w => v.le w

end Comparison

structure VersionRange where
  low : Version
  lowCmp : Comparison
  highCmp : Comparison
  high : Version
  deriving DecidableEq, Repr

namespace VersionRange

def bound? (s : List Char) : Option Version :=
  (Version.numbers? s).map fun n => Version.plain n.1 n.2.1 n.2.2

/-- Five parts with single spaces between them. -/
def parseChars? (s : List Char) : Option VersionRange :=
  match splitAll ' ' s with
  | [low, lowCmp, ['v'], highCmp, high] => do
    let low ← bound? low
    let lowCmp ← Comparison.parse? lowCmp
    let highCmp ← Comparison.parse? highCmp
    let high ← bound? high
    return ⟨low, lowCmp, highCmp, high⟩
  | _ => none

def parse? (s : String) : Option VersionRange := parseChars? (trimChars s.toList)

def render (r : VersionRange) : String :=
  r.low.renderNumbers ++ " " ++ r.lowCmp.render ++ " v " ++ r.highCmp.render ++ " " ++
    r.high.renderNumbers

def contains (r : VersionRange) (v : Version) : Bool :=
  r.lowCmp.holds r.low v && r.highCmp.holds v r.high

end VersionRange
end UsageGraph
