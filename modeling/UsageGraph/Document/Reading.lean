import UsageGraph.Document.Basic

/-! # Reading JSON

* `scanQuoted`: the rest of a quoted text after its opening quote.
* `scanNumeral`: a number.
* `readValue`, `readItems`, `readMembers`: one value and what may stand inside lists and records.
  Each step of the recursion uses up a character, so the length of the text bounds the depth.
* `Document.parse?`: a whole text that is one value with blanks around it.

The grammar, the limit on the depth and the conditions on kept values are those of the library
`serde_json` as the readers of this program use it.
-/

namespace UsageGraph
open Text
set_option autoImplicit false

/-! ## Quoted text -/

/-- A character, or a 16-bit unit that was written as an escape. -/
inductive QuotedPart where
  | char (c : Char)
  | unit (n : Nat)
  deriving DecidableEq, Repr

namespace QuotedPart

def isHigh (n : Nat) : Bool := 0xD800 ≤ n && n < 0xDC00
def isLow (n : Nat) : Bool := 0xDC00 ≤ n && n < 0xE000

/-- A high unit pairs with a low unit right after it; alone, neither is a character. -/
def joinFrom (acc : List Char) : List QuotedPart → Option (List Char)
  | [] => some acc.reverse
  | char c :: rest => joinFrom (c :: acc) rest
  | unit n :: rest =>
    if isLow n then none
    else if isHigh n then
      match rest with
      | unit m :: rest =>
        if isLow m then
          joinFrom (Char.ofNat (0x10000 + (n - 0xD800) * 0x400 + (m - 0xDC00)) :: acc) rest
        else none
      | _ => none
    else joinFrom (Char.ofNat n :: acc) rest

def join? (parts : List QuotedPart) : Option String := (joinFrom [] parts).map String.ofList

end QuotedPart

def hexValue? (c : Char) : Option Nat :=
  if isAsciiDigit c then some (c.toNat - 48)
  else if 'a' ≤ c && c ≤ 'f' then some (c.toNat - 87)
  else if 'A' ≤ c && c ≤ 'F' then some (c.toNat - 55)
  else none

def hex4? (a b c d : Char) : Option Nat := do
  let a ← hexValue? a
  let b ← hexValue? b
  let c ← hexValue? c
  let d ← hexValue? d
  return ((a * 16 + b) * 16 + c) * 16 + d

/-- The character that a one-letter escape stands for. -/
def escaped? : Char → Option Char
  | '"' => some '"'
  | '\\' => some '\\'
  | '/' => some '/'
  | 'b' => some '\x08'
  | 'f' => some '\x0c'
  | 'n' => some '\n'
  | 'r' => some '\r'
  | 't' => some '\t'
  | _ => none

/-- Reads up to the closing quote. Control characters have to be escaped. -/
def scanQuoted (acc : List QuotedPart) : List Char → Option (List QuotedPart × List Char)
  | [] => none
  | '"' :: rest => some (acc.reverse, rest)
  | '\\' :: 'u' :: a :: b :: c :: d :: rest =>
    match hex4? a b c d with
    | some n => scanQuoted (.unit n :: acc) rest
    | none => none
  | '\\' :: c :: rest =>
    match escaped? c with
    | some c => scanQuoted (.char c :: acc) rest
    | none => none
  | c :: rest => if c.toNat < 0x20 || c == '\\' then none else scanQuoted (.char c :: acc) rest

/-! ## Numbers -/

/-- The digits in front and what follows them. -/
def spanDigits (s : List Char) : List Char × List Char := s.span isAsciiDigit

def scanWhole (s : List Char) : Option (List Char × List Char) :=
  match spanDigits s with
  | ([], _) => none
  | (digits, rest) => if hasSpareZero digits then none else some (digits, rest)

def scanFraction : List Char → Option (Option (List Char) × List Char)
  | '.' :: s =>
    match spanDigits s with
    | ([], _) => none
    | (digits, rest) => some (some digits, rest)
  | s => some (none, s)

def scanSign : List Char → Bool × List Char
  | '+' :: s => (false, s)
  | '-' :: s => (true, s)
  | s => (false, s)

def scanExponent : List Char → Option (Option (Bool × List Char) × List Char)
  | [] => some (none, [])
  | c :: s =>
    if c == 'e' || c == 'E' then
      let (negative, s) := scanSign s
      match spanDigits s with
      | ([], _) => none
      | (digits, rest) => some (some (negative, digits), rest)
    else some (none, c :: s)

def scanUnsigned (negative : Bool) (s : List Char) : Option (Numeral × List Char) := do
  let (whole, s) ← scanWhole s
  let (fraction, s) ← scanFraction s
  let (exponent, s) ← scanExponent s
  return (⟨negative, whole, fraction, exponent⟩, s)

def scanNumeral : List Char → Option (Numeral × List Char)
  | '-' :: s => scanUnsigned true s
  | s => scanUnsigned false s

/-! ## Values -/

def isJsonBlank (c : Char) : Bool := c == ' ' || c == '\n' || c == '\t' || c == '\r'

def skipBlank (s : List Char) : List Char := s.dropWhile isJsonBlank

def readQuoted : List Char → Option (Option String × List Char)
  | '"' :: s => (scanQuoted [] s).map fun p => (QuotedPart.join? p.1, p.2)
  | _ => none

mutual

/-- A value, after any blanks. -/
def readValue : Nat → List Char → Option (Document × List Char)
  | 0, _ => none
  | fuel + 1, s =>
    match skipBlank s with
    | 'n' :: 'u' :: 'l' :: 'l' :: s => some (.null, s)
    | 't' :: 'r' :: 'u' :: 'e' :: s => some (.bool true, s)
    | 'f' :: 'a' :: 'l' :: 's' :: 'e' :: s => some (.bool false, s)
    | '[' :: s =>
      match skipBlank s with
      | ']' :: s => some (.list [], s)
      | s => (readItems fuel [] s).map fun p => (.list p.1, p.2)
    | '{' :: s =>
      match skipBlank s with
      | '}' :: s => some (.record [], s)
      | s => (readMembers fuel [] s).map fun p => (.record p.1, p.2)
    | '"' :: s => (readQuoted ('"' :: s)).map fun p => (.text p.1, p.2)
    | s => (scanNumeral s).map fun p => (.number p.1, p.2)

/-- One or more values up to the closing bracket; `acc` holds those before, the last first. -/
def readItems : Nat → List Document → List Char → Option (List Document × List Char)
  | 0, _, _ => none
  | fuel + 1, acc, s =>
    match readValue fuel s with
    | none => none
    | some (d, s) =>
      match skipBlank s with
      | ',' :: s => readItems fuel (d :: acc) s
      | ']' :: s => some ((d :: acc).reverse, s)
      | _ => none

/-- One or more members up to the closing brace. -/
def readMembers : Nat → List (Option String × Document) → List Char →
    Option (List (Option String × Document) × List Char)
  | 0, _, _ => none
  | fuel + 1, acc, s =>
    match readQuoted (skipBlank s) with
    | none => none
    | some (key, s) =>
      match skipBlank s with
      | ':' :: s =>
        match readValue fuel s with
        | none => none
        | some (d, s) =>
          match skipBlank s with
          | ',' :: s => readMembers fuel ((key, d) :: acc) s
          | '}' :: s => some (((key, d) :: acc).reverse, s)
          | _ => none
      | _ => none

end

/-- The value that the whole text is, with blanks around it. -/
def Document.parse? (s : String) : Option Document :=
  let cs := s.toList
  match readValue (cs.length + 1) cs with
  | some (d, rest) => if skipBlank rest = [] then some d else none
  | none => none

end UsageGraph
