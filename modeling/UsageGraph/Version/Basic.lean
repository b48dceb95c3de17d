import UsageGraph.Duration
import UsageGraph.Text.Blank
import UsageGraph.Text.WordChar

/-! # Versions

Semantic versions: three numbers, then optional pre-release and build labels.

* `Label`: one dot-separated part after the numbers, a number written in some width or a word.
* `Version.parse?`, `Version.render`: the text form. Numbers are at most `2 ^ 64 - 1` and have no
  superfluous zero in front; neither has a number among the pre-release labels.
* `Version.compare`: the total order. A version with pre-release labels comes before the version
  without them, and build labels are compared last.

The text form and the order are those that the library `semver` documents, build labels included.
-/

namespace UsageGraph
open Text
set_option autoImplicit false

/-! ## Numbers -/

def digitValue (c : Char) : Nat := c.toNat - 48

/-- The value of a non-empty sequence of ASCII digits. -/
def number? (s : List Char) : Option Nat :=
  if s = [] ∨ s.any (fun c => !isAsciiDigit c) then none
  else some (s.foldl (fun n c => 10 * n + digitValue c) 0)

/-- A zero in front of another digit. -/
def hasSpareZero : List Char → Bool
  | '0' :: _ :: _ => true
  | _ => false

def maxNumber : Nat := UInt64.size - 1

/-- A number without a superfluous zero that fits 64 bits. -/
def versionNumber? (s : List Char) : Option Nat :=
  if hasSpareZero s then none else (number? s).filter (· ≤ maxNumber)

/-! ## Labels -/

inductive Label where
  /-- A number and the count of digits it is written with. -/
  | number (value width : Nat)
  | word (text : String)
  deriving DecidableEq, Repr

namespace Label

def isLabelChar (c : Char) : Bool := isAsciiLetter c || isAsciiDigit c || c == '-'

def parse? (s : List Char) : Option Label :=
  if s = [] ∨ s.any (fun c => !isLabelChar c) then none
  else
    match number? s with
    | some n => some (number n s.length)
    | none => some (word (String.ofList s))

def render : Label → String
  | number value width => String.ofList (Duration.padded width value)
  | word text => text

/-- A number written without superfluous zeros, or a word. -/
def isPlain : Label → Bool
  | number value width => width == (Nat.toDigits 10 value).length
  | word _ => true

/-- Numbers come before words; equal values are ordered by their width. -/
def compare : Label → Label → Ordering
  | number v w, number v' w' => (Ord.compare v v').then (Ord.compare w w')
  | number _ _, word _ => .lt
  | word _, number _ _ => .gt
  | word s, word t => Ord.compare s t

/-- Label by label; the sequence that ends first comes first. -/
def compareAll : List Label → List Label → Ordering
  | [], [] => .eq
  | [], _ :: _ => .lt
  | _ :: _, [] => .gt
  | a :: as, b :: bs => (compare a b).then (compareAll as bs)

def parseAll? (s : List Char) : Option (List Label) := (splitAll '.' s).mapM parse?

def renderAll (labels : List Label) : String := join "." (labels.map render)

end Label

/-! ## Versions -/

structure Version where
  major : Nat
  minor : Nat
  patch : Nat
  pre : List Label
  build : List Label
  deriving DecidableEq, Repr

namespace Version

/-- The three numbers alone. -/
def plain (major minor patch : Nat) : Version := ⟨major, minor, patch, [], []⟩

def numbers? (s : List Char) : Option (Nat × Nat × Nat) :=
  match splitAll '.' s with
  | [a, b, c] => do
    let a ← versionNumber? a
    let b ← versionNumber? b
    let c ← versionNumber? c
    return (a, b, c)
  | _ => none

/-- The labels after a separator, where there is a separator. -/
def labels? : Option (List Char) → Option (List Label)
  | none => some []
  | some s => Label.parseAll? s

/-- Cuts at the first `c`; without one, all of `s` is the first part. -/
def cut (c : Char) (s : List Char) : List Char × Option (List Char) :=
  match splitOnce c s with
  | some (a, b) => (a, some b)
  | none => (s, none)

def parseChars? (s : List Char) : Option Version := do
  let (front, build) := cut '+' s
  let (core, pre) := cut '-' front
  let (major, minor, patch) ← numbers? core
  let pre ← labels? pre
  let build ← labels? build
  if pre.all Label.isPlain then return ⟨major, minor, patch, pre, build⟩ else none

def parse? (s : String) : Option Version := parseChars? s.toList

def renderNumbers (v : Version) : String :=
  toString v.major ++ "." ++ toString v.minor ++ "." ++ toString v.patch

def render (v : Version) : String :=
  v.renderNumbers ++ (if v.pre = [] then "" else "-" ++ Label.renderAll v.pre) ++
    (if v.build = [] then "" else "+" ++ Label.renderAll v.build)

/-! ## Order -/

/-- No pre-release label at all is the highest. -/
def comparePre : List Label → List Label → Ordering
  | [], [] => .eq
  | [], _ :: _ => .gt
  | _ :: _, [] => .lt
  | a :: as, b :: bs => Label.compareAll (a :: as) (b :: bs)

def compare (v w : Version) : Ordering :=
  (Ord.compare v.major w.major).then <| (Ord.compare v.minor w.minor).then <|
    (Ord.compare v.patch w.patch).then <| (comparePre v.pre w.pre).then <|
      Label.compareAll v.build w.build

def lt (v w : Version) : Bool := compare v w == .lt
def le (v w : Version) : Bool := compare v w != .gt

end Version
end UsageGraph
