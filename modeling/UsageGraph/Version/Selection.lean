import UsageGraph.Trace
import UsageGraph.Version.Range

/-! # Choosing a published version

* `SelectionPolicy`: which of several versions in a range is taken.
* `candidates`: the published texts that are versions inside a range.
* `selectVersion`: the chosen text, or the expression itself where nothing is to be chosen.
* `selectionEvents`: what is reported about that choice.
-/

namespace UsageGraph
open Text
set_option autoImplicit false

inductive SelectionPolicy where
  /-- The highest one. -/
  | highest
  /-- The first one in published order. -/
  | first
  deriving DecidableEq, Repr

/-- The published texts that are versions inside `range`, with the versions they stand for. -/
def candidates (range : VersionRange) (published : List String) : List (Version × String) :=
  published.filterMap fun text =>
    ((Version.parse? text).filter range.contains).map fun v => (v, text)

/-- The later of two candidates wins where their versions are equal. -/
def higher (a b : Version × String) : Version × String :=
  if Version.compare a.1 b.1 = .gt then a else b

def highest? : List (Version × String) → Option (Version × String)
  | [] => none
  | c :: cs => some (cs.foldl higher c)

def SelectionPolicy.pick (policy : SelectionPolicy) (cs : List (Version × String)) :
    Option String :=
  match policy with
  | .first => cs.head?.map Prod.snd
  | .highest => (highest? cs).map Prod.snd

/-- The version that `expr` stands for among the published ones. An expression that is no range,
or a range without a published version, stands for itself. -/
def selectVersion (policy : SelectionPolicy) (expr : String) (published : List String) : String :=
  match VersionRange.parse? expr with
  | none => expr
  | some range => (policy.pick (candidates range published)).getD expr

/-- An expression that is neither a range nor a version is worth a warning. -/
def selectionEvents (policy : SelectionPolicy) (expr : String) (published : List String) :
    List Event :=
  match VersionRange.parse? expr with
  | none =>
    if (Version.parse? (trim expr)).isSome then []
    else [.warn ("couldn't parse version range: \"" ++ expr ++ "\"")]
  | some range =>
    if (policy.pick (candidates range published)).isSome then []
    else [.debug ("no published version satisfies \"" ++ expr ++ "\"")]

end UsageGraph
