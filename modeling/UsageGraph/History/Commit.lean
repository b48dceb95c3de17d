import UsageGraph.History.Interval
import UsageGraph.Text.Blank
import UsageGraph.Text.WordChar

/-! # Commits

* `Commit`: a revision and the time it was committed at.
* `Overflow`: what becomes of a product that leaves 64 bits.
* `readLog`: the revision and the seconds since the epoch that each line of a log is made of. Lines
  of any other form are passed over.
* `parseLog`: the commits that a log prints, with their times in milliseconds.
-/

namespace UsageGraph
open Text
set_option autoImplicit false

structure Commit where
  hash : String
  timestamp : Instant
  deriving DecidableEq, Repr

namespace Commit

/-- The characters that fit into a number of bytes. -/
def withinBytes : Nat → List Char → List Char
  | _, [] => []
  | room, c :: s => if c.utf8Size ≤ room then c :: withinBytes (room - c.utf8Size) s else []

/-- Enough of a revision to recognise it by, for debug messages alone. It is cut between characters.
A revision is ASCII; off one that is not, a cut inside a character would be a panic. -/
def shortHash (c : Commit) : String := String.ofList (withinBytes 7 c.hash.toList)

end Commit

/-! ## Logs -/

def decimal (s : List Char) : Nat := s.foldl (fun n c => 10 * n + (c.toNat - 48)) 0

def unsigned? (s : List Char) : Option Nat :=
  if s ≠ [] ∧ s.all isAsciiDigit then some (decimal s) else none

/-- The numbers of 64 bits, one of which is for the sign. -/
def Fits64 (v : Int) : Prop := Int64.minValue.toInt ≤ v ∧ v ≤ Int64.maxValue.toInt

instance : DecidablePred Fits64 := fun _ => inferInstanceAs (Decidable (_ ∧ _))

/-- A whole number with a sign or without, in 64 bits. -/
def seconds? (s : List Char) : Option Int :=
  let value := match s with
    | '-' :: s => (unsigned? s).map fun n => -(n : Int)
    | '+' :: s => (unsigned? s).map fun n => (n : Int)
    | s => (unsigned? s).map fun n => (n : Int)
  value.filter fun v => decide (Fits64 v)

/-- The revision and the seconds of a line. -/
def readLogLine? (line : String) : Option (String × Int) := do
  let (hash, seconds) ← splitOnce ' ' (trimChars line.toList)
  return (String.ofList hash, ← seconds? (trimChars seconds))

/-! ## Times

The milliseconds are an unchecked product. Whether it is looked after depends on the build. -/

/-- What becomes of a product that leaves 64 bits. -/
inductive Overflow where
  /-- The run is broken off, as in a build that checks its arithmetic. -/
  | panics
  /-- The product wraps around, as in a build that does not. -/
  | wraps
  deriving DecidableEq, Repr

def millisPerSecond : Int64 := 1000

/-- There is none where the product is checked and leaves 64 bits. -/
def millis? (o : Overflow) (seconds : Int) : Option Instant :=
  if o = .panics ∧ ¬Fits64 (1000 * seconds) then none
  else some (Int64.ofInt seconds * millisPerSecond)

def Commit.ofLine? (o : Overflow) (line : String × Int) : Option Commit :=
  (millis? o line.2).map fun time => ⟨line.1, time⟩

/-- The revisions and the seconds of a log. -/
def readLog (log : String) : List (String × Int) := (lines log).filterMap readLogLine?

/-- There is none where a product breaks the reading off. -/
def parseLog (o : Overflow) (log : String) : Option (List Commit) :=
  (readLog log).mapM (Commit.ofLine? o)

/-- What such a panic says. -/
def productOverflow : String := "attempt to multiply with overflow"

end UsageGraph
