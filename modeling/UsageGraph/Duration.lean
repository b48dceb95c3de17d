/-! # Durations

A length of time in nanoseconds and its shortest text: a whole number of the largest unit that
fits, then a fraction without trailing zeros.

* `Duration.render`: the text, such as `300s`, `1.5s`, `100ms`, `2.05ms`, `0ns`.
-/

namespace UsageGraph
set_option autoImplicit false

structure Duration where
  nanos : Nat
  deriving DecidableEq, Repr

namespace Duration

def ofMillis (n : Nat) : Duration := ⟨n * 1000000⟩
def ofSeconds (n : Nat) : Duration := ⟨n * 1000000000⟩

/-- The digits of `n`, with zeros in front up to `width` digits. -/
def padded (width n : Nat) : List Char :=
  let digits := Nat.toDigits 10 n
  List.replicate (width - digits.length) '0' ++ digits

/-- The digits after the point, none if the value is whole. -/
def fraction (width n : Nat) : List Char :=
  match ((padded width n).reverse.dropWhile (· = '0')).reverse with
  | [] => []
  | digits => '.' :: digits

/-- The value in a unit of `10 ^ width` nanoseconds. -/
def inUnit (d : Duration) (width : Nat) (unit : String) : String :=
  toString (d.nanos / Nat.pow 10 width) ++ String.ofList (fraction width (d.nanos % Nat.pow 10 width)) ++ unit

def render (d : Duration) : String :=
  if 1000000000 ≤ d.nanos then d.inUnit 9 "s"
  else if 1000000 ≤ d.nanos then d.inUnit 6 "ms"
  else if 1000 ≤ d.nanos then d.inUnit 3 "µs"
  else toString d.nanos ++ "ns"

end Duration
end UsageGraph
