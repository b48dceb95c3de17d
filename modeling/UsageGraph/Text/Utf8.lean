/-! # UTF-8

* `encode`: the bytes of a text.
* `scalars`: what a byte sequence reads as, one entry a character and one entry without a
  character for each maximal ill-formed part.
* `decode?`: the text, if every part is well formed.
* `decodeLossy`: the text with U+FFFD for each ill-formed part.
-/

namespace UsageGraph.Text
set_option autoImplicit false

abbrev Bytes := List UInt8

def encode (s : String) : Bytes := s.toUTF8.toList

/-! ## One character -/

def within (lo hi : Nat) (b : UInt8) : Bool := lo ≤ b.toNat && b.toNat ≤ hi

/-- The six low bits that a continuation byte carries. -/
def payload (b : UInt8) : Nat := b.toNat % 64

/-- Reads the continuation bytes after a lead byte whose own bits are `acc`. The range of the next
byte is given, the `more` bytes after it are unrestricted continuation bytes. The result counts
the bytes taken, `used` of them before. -/
def continueScalar (acc lo hi more used : Nat) : Bytes → Option Char × Nat
  | [] => (none, used)
  | b :: rest =>
    if within lo hi b then
      match more with
      | 0 => (some (Char.ofNat (acc * 64 + payload b)), used + 1)
      | more + 1 => continueScalar (acc * 64 + payload b) 0x80 0xBF more (used + 1) rest
    else (none, used)

/-- The character that starts with `lead`, and how many bytes after `lead` belong to it. -/
def scalarAt (lead : UInt8) (rest : Bytes) : Option Char × Nat :=
  let n := lead.toNat
  if n < 0x80 then (some (Char.ofNat n), 0)
  else if n < 0xC2 then (none, 0)
  else if n < 0xE0 then continueScalar (n - 0xC0) 0x80 0xBF 0 0 rest
  else if n < 0xF0 then
    let lo := if n = 0xE0 then 0xA0 else 0x80
    let hi := if n = 0xED then 0x9F else 0xBF
    continueScalar (n - 0xE0) lo hi 1 0 rest
  else if n < 0xF5 then
    let lo := if n = 0xF0 then 0x90 else 0x80
    let hi := if n = 0xF4 then 0x8F else 0xBF
    continueScalar (n - 0xF0) lo hi 2 0 rest
  else (none, 0)

/-! ## Whole sequences -/

/-- The entries of a byte sequence whose first `skip` bytes belong to an earlier entry. -/
def scalarsFrom : Nat → Bytes → List (Option Char)
  | _, [] => []
  | skip + 1, _ :: rest => scalarsFrom skip rest
  | 0, b :: rest => (scalarAt b rest).1 :: scalarsFrom (scalarAt b rest).2 rest

def scalars (bs : Bytes) : List (Option Char) := scalarsFrom 0 bs

def decode? (bs : Bytes) : Option String :=
  ((scalars bs).mapM id).map String.ofList

def decodeLossy (bs : Bytes) : String :=
  String.ofList ((scalars bs).map fun c => c.getD (Char.ofNat 0xFFFD))

end UsageGraph.Text
