import UsageGraph.Version.Basic

/-! # JSON documents

* `Numeral`: a number as it is written.
* `Document`: a JSON value. A quoted text whose escapes do not pair up to characters has no
  value, written `none`; such a text is well-formed and may be skipped, but not read.
* `Document.isKept`: the conditions on a value that is read into memory as a whole.
-/

namespace UsageGraph
set_option autoImplicit false

/-! ## Numbers -/

structure Numeral where
  negative : Bool
  whole : List Char
  fraction : Option (List Char)
  /-- The sign and the digits of the exponent. -/
  exponent : Option (Bool × List Char)
  deriving DecidableEq, Repr

namespace Numeral

def digitsValue (s : List Char) : Nat := s.foldl (fun n c => 10 * n + digitValue c) 0

def ofNat (n : Nat) : Numeral := ⟨false, Nat.toDigits 10 n, none, none⟩

def ofInt (n : Int) : Numeral := ⟨n < 0, Nat.toDigits 10 n.natAbs, none, none⟩

/-- An integer has neither fraction nor exponent, and zero has no sign. -/
def toInt? (n : Numeral) : Option Int :=
  match n.fraction, n.exponent with
  | none, none =>
    let v := digitsValue n.whole
    if n.negative then (if v = 0 then none else some (-(v : Int))) else some v
  | _, _ => none

/-- Digits taken while their value fits 64 bits; the second number counts the digits left out. -/
def significand (s : List Char) : Nat × Nat :=
  s.foldl (fun (p : Nat × Nat) c =>
    if p.2 = 0 ∧ 10 * p.1 + digitValue c ≤ maxNumber then (10 * p.1 + digitValue c, 0)
    else (p.1, p.2 + 1)) (0, 0)

/-- A double precision number can hold the value. The exponents that are compared are small, so
that no large power is computed. -/
def isFinite (n : Numeral) : Bool :=
  let fraction := n.fraction.getD []
  let (value, left) := significand (n.whole ++ fraction)
  let shift : Int := (left : Int) - fraction.length
  let exponent : Int := match n.exponent with
    | none => 0
    | some (negative, digits) =>
      let e := min (digitsValue (digits.take 12)) 1000000000
      if negative then -(e : Int) else e
  let total := shift + exponent
  if value = 0 ∨ total ≤ 0 then true
  else if total > 308 then false
  else decide (value * Nat.pow 10 total.toNat < Nat.pow 2 1024 - Nat.pow 2 970)

/-- A whole number without sign and exponent is finite by its digits alone unless it is long. -/
def render (n : Numeral) : String :=
  String.ofList ((if n.negative then ['-'] else []) ++ n.whole ++
    (match n.fraction with
      | none => []
      | some f => '.' :: f) ++
    (match n.exponent with
      | none => []
      | some (negative, digits) => 'e' :: (if negative then ['-'] else []) ++ digits))

end Numeral

/-! ## Values -/

inductive Document where
  | null
  | bool (b : Bool)
  | number (n : Numeral)
  | text (s : Option String)
  | list (items : List Document)
  | record (fields : List (Option String × Document))
  deriving Repr, Inhabited

namespace Document

def ofText (s : String) : Document := text (some s)
def ofNat (n : Nat) : Document := number (.ofNat n)
def ofInt (n : Int) : Document := number (.ofInt n)
def ofFields (fields : List (String × Document)) : Document :=
  record (fields.map fun p => (some p.1, p.2))
def ofTexts (ss : List String) : Document := list (ss.map ofText)

/-- `none` is written `null`. -/
def ofOption {α : Type} (f : α → Document) : Option α → Document
  | none => null
  | some a => f a

/-! ## Values that are read as a whole -/

/-- The greatest number of lists and records that may be open at once. -/
def nestingLimit : Nat := 127

mutual

/-- Every text has a value, every number is finite, and at most `room` lists and records are open
at once. -/
def isKept : Nat → Document → Bool
  | _, null => true
  | _, bool _ => true
  | _, number n => n.isFinite
  | _, text s => s.isSome
  | 0, list _ => false
  | room + 1, list items => areKept room items
  | 0, record _ => false
  | room + 1, record fields => fieldsKept room fields

def areKept : Nat → List Document → Bool
  | _, [] => true
  | room, d :: ds => isKept room d && areKept room ds

def fieldsKept : Nat → List (Option String × Document) → Bool
  | _, [] => true
  | room, (key, d) :: fs => key.isSome && isKept room d && fieldsKept room fs

end

end Document
end UsageGraph
