import UsageGraph.Text.Utf8

/-! # XXH3, 64 bits, seed 0

The digest of a byte sequence. Inputs of at most 16, 128 and 240 bytes have formulas of their own;
longer ones are folded through eight accumulators, stripe by stripe.

* `xxh3`: the digest.
* `hex16`: its sixteen lower-case hexadecimal digits.
-/

namespace UsageGraph.Digest
open UsageGraph.Text
set_option autoImplicit false

/-! ## Constants -/

def secret : Array UInt8 := #[
  0xb8, 0xfe, 0x6c, 0x39, 0x23, 0xa4, 0x4b, 0xbe, 0x7c, 0x01, 0x81, 0x2c, 0xf7, 0x21, 0xad, 0x1c,
  0xde, 0xd4, 0x6d, 0xe9, 0x83, 0x90, 0x97, 0xdb, 0x72, 0x40, 0xa4, 0xa4, 0xb7, 0xb3, 0x67, 0x1f,
  0xcb, 0x79, 0xe6, 0x4e, 0xcc, 0xc0, 0xe5, 0x78, 0x82, 0x5a, 0xd0, 0x7d, 0xcc, 0xff, 0x72, 0x21,
  0xb8, 0x08, 0x46, 0x74, 0xf7, 0x43, 0x24, 0x8e, 0xe0, 0x35, 0x90, 0xe6, 0x81, 0x3a, 0x26, 0x4c,
  0x3c, 0x28, 0x52, 0xbb, 0x91, 0xc3, 0x00, 0xcb, 0x88, 0xd0, 0x65, 0x8b, 0x1b, 0x53, 0x2e, 0xa3,
  0x71, 0x64, 0x48, 0x97, 0xa2, 0x0d, 0xf9, 0x4e, 0x38, 0x19, 0xef, 0x46, 0xa9, 0xde, 0xac, 0xd8,
  0xa8, 0xfa, 0x76, 0x3f, 0xe3, 0x9c, 0x34, 0x3f, 0xf9, 0xdc, 0xbb, 0xc7, 0xc7, 0x0b, 0x4f, 0x1d,
  0x8a, 0x51, 0xe0, 0x4b, 0xcd, 0xb4, 0x59, 0x31, 0xc8, 0x9f, 0x7e, 0xc9, 0xd9, 0x78, 0x73, 0x64,
  0xea, 0xc5, 0xac, 0x83, 0x34, 0xd3, 0xeb, 0xc3, 0xc5, 0x81, 0xa0, 0xff, 0xfa, 0x13, 0x63, 0xeb,
  0x17, 0x0d, 0xdd, 0x51, 0xb7, 0xf0, 0xda, 0x49, 0xd3, 0x16, 0x55, 0x26, 0x29, 0xd4, 0x68, 0x9e,
  0x2b, 0x16, 0xbe, 0x58, 0x7d, 0x47, 0xa1, 0xfc, 0x8f, 0xf8, 0xb8, 0xd1, 0x7a, 0xd0, 0x31, 0xce,
  0x45, 0xcb, 0x3a, 0x8f, 0x95, 0x16, 0x04, 0x28, 0xaf, 0xd7, 0xfb, 0xca, 0xbb, 0x4b, 0x40, 0x7e]

def prime32a : UInt64 := 0x9E3779B1
def prime32b : UInt64 := 0x85EBCA77
def prime32c : UInt64 := 0xC2B2AE3D
def prime64a : UInt64 := 0x9E3779B185EBCA87
def prime64b : UInt64 := 0xC2B2AE3D27D4EB4F
def prime64c : UInt64 := 0x165667B19E3779F9
def prime64d : UInt64 := 0x85EBCA77C2B2AE63
def prime64e : UInt64 := 0x27D4EB2F165667C5

/-! ## Words -/

/-- The little-endian word of `n` bytes that starts at `i`. -/
def wordAt (bs : Array UInt8) (i : Nat) : Nat → UInt64
  | 0 => 0
  | n + 1 => (bs.getD i 0).toUInt64 + wordAt bs (i + 1) n * 256

def read64 (bs : Array UInt8) (i : Nat) : UInt64 := wordAt bs i 8
def read32 (bs : Array UInt8) (i : Nat) : UInt64 := wordAt bs i 4

/-- The two halves of the 128-bit product, xored. -/
def foldProduct (a b : UInt64) : UInt64 :=
  let p := a.toNat * b.toNat
  p.toUInt64 ^^^ (p / UInt64.size).toUInt64

def rotateLeft (x : UInt64) (n : UInt64) : UInt64 := (x <<< n) ||| (x >>> (64 - n))

def byteOf (x : UInt64) (i : Nat) : UInt64 := (x >>> (8 * i).toUInt64) % 256

def swapBytes (x : UInt64) : UInt64 :=
  (List.range 8).foldl (fun acc i => acc * 256 + byteOf x i) 0

def avalanche (h : UInt64) : UInt64 :=
  let h := (h ^^^ (h >>> 37)) * 0x165667919E3779F9
  h ^^^ (h >>> 32)

def avalanche64 (h : UInt64) : UInt64 :=
  let h := (h ^^^ (h >>> 33)) * prime64b
  let h := (h ^^^ (h >>> 29)) * prime64c
  h ^^^ (h >>> 32)

/-! ## Inputs of at most 240 bytes -/

def digestTo16 (bs : Array UInt8) : UInt64 :=
  let n := bs.size
  let len := n.toUInt64
  if 8 < n then
    let flipLow := read64 secret 24 ^^^ read64 secret 32
    let flipHigh := read64 secret 40 ^^^ read64 secret 48
    let low := read64 bs 0 ^^^ flipLow
    let high := read64 bs (n - 8) ^^^ flipHigh
    avalanche (len + swapBytes low + high + foldProduct low high)
  else if 4 ≤ n then
    let flip := read64 secret 8 ^^^ read64 secret 16
    let x := read32 bs (n - 4) + (read32 bs 0 <<< 32)
    let h := x ^^^ flip
    let h := h ^^^ (rotateLeft h 49 ^^^ rotateLeft h 24)
    let h := h * 0x9FB21C651E98DF25
    let h := h ^^^ ((h >>> 35) + len)
    let h := h * 0x9FB21C651E98DF25
    h ^^^ (h >>> 28)
  else if 1 ≤ n then
    let c1 := (bs.getD 0 0).toUInt64
    let c2 := (bs.getD (n / 2) 0).toUInt64
    let c3 := (bs.getD (n - 1) 0).toUInt64
    let x := (c1 <<< 16) ||| (c2 <<< 24) ||| c3 ||| (len <<< 8)
    avalanche64 (x ^^^ (read32 secret 0 ^^^ read32 secret 4))
  else avalanche64 (read64 secret 56 ^^^ read64 secret 64)

/-- Sixteen bytes at `i`, mixed with sixteen bytes of the secret at `j`. -/
def mix16 (bs : Array UInt8) (i j : Nat) : UInt64 :=
  foldProduct (read64 bs i ^^^ read64 secret j) (read64 bs (i + 8) ^^^ read64 secret (j + 8))

def digestTo128 (bs : Array UInt8) : UInt64 :=
  let n := bs.size
  let rounds := (n - 1) / 32 + 1
  avalanche ((List.range rounds).foldl
    (fun acc i => acc + mix16 bs (16 * i) (32 * i) + mix16 bs (n - 16 * (i + 1)) (32 * i + 16))
    (n.toUInt64 * prime64a))

def digestTo240 (bs : Array UInt8) : UInt64 :=
  let n := bs.size
  let first := (List.range 8).foldl (fun acc i => acc + mix16 bs (16 * i) (16 * i))
    (n.toUInt64 * prime64a)
  let middle := (List.range (n / 16 - 8)).foldl
    (fun acc i => acc + mix16 bs (16 * (i + 8)) (16 * i + 3)) (avalanche first)
  avalanche (middle + mix16 bs (n - 16) (136 - 17))

/-! ## Longer inputs -/

abbrev Lanes := List UInt64

def lanes : Lanes :=
  [prime32c, prime64a, prime64b, prime64c, prime64d, prime32b, prime64e, prime32a]

/-- One stripe of 64 bytes at `i`, with the secret from `j`. A lane takes the product of its own
keyed halves and the plain word of its neighbour. -/
def addStripe (bs : Array UInt8) (i j : Nat) (acc : Lanes) : Lanes :=
  acc.mapIdx fun k a =>
    let key := read64 bs (i + 8 * k) ^^^ read64 secret (j + 8 * k)
    let neighbour := read64 bs (i + 8 * (if k % 2 = 0 then k + 1 else k - 1))
    a + neighbour + (key % 0x100000000) * (key >>> 32)

def scramble (acc : Lanes) : Lanes :=
  acc.mapIdx fun k (a : UInt64) => (a ^^^ (a >>> 47) ^^^ read64 secret (128 + 8 * k)) * prime32a

/-- The lanes, two by two, mixed with the secret from `j`. -/
def mergeLanes (j : Nat) (start : UInt64) (acc : Lanes) : UInt64 :=
  avalanche ((List.range 4).foldl
    (fun sum k => sum + foldProduct (acc.getD (2 * k) 0 ^^^ read64 secret (j + 16 * k))
      (acc.getD (2 * k + 1) 0 ^^^ read64 secret (j + 16 * k + 8))) start)

/-- Sixteen stripes make a block of 1024 bytes, after which the lanes are scrambled. The last
stripe is the last 64 bytes, whether or not some of them have been taken before. -/
def digestLong (bs : Array UInt8) : UInt64 :=
  let n := bs.size
  let blocks := (n - 1) / 1024
  let whole := (List.range blocks).foldl
    (fun acc b => scramble ((List.range 16).foldl
      (fun acc s => addStripe bs (1024 * b + 64 * s) (8 * s) acc) acc)) lanes
  let stripes := (n - 1 - 1024 * blocks) / 64
  let rest := (List.range stripes).foldl
    (fun acc s => addStripe bs (1024 * blocks + 64 * s) (8 * s) acc) whole
  let acc := addStripe bs (n - 64) (192 - 64 - 7) rest
  mergeLanes 11 (n.toUInt64 * prime64a) acc

/-! ## The digest -/

def xxh3Array (bs : Array UInt8) : UInt64 :=
  if bs.size ≤ 16 then digestTo16 bs
  else if bs.size ≤ 128 then digestTo128 bs
  else if bs.size ≤ 240 then digestTo240 bs
  else digestLong bs

def xxh3 (bs : Bytes) : UInt64 := xxh3Array bs.toArray

def hexDigit (n : Nat) : Char :=
  if n < 10 then Char.ofNat (48 + n) else Char.ofNat (87 + n)

/-- The sixteen digits of a 64-bit word, most significant first. -/
def hex16 (x : UInt64) : String :=
  String.ofList ((List.range 16).map fun i => hexDigit (x.toNat / Nat.pow 16 (15 - i) % 16))

end UsageGraph.Digest
