import UsageGraph.Text.Utf8

/-! # Glob patterns

A pattern is matched against the bytes of a path. Only the wildcards of two stars match a slash.

* `GlobToken`: what a pattern is made of.
* `Glob.parse?`: the pattern of a text; braces have to be balanced.
* `Glob.matches`: whether a pattern matches all of a path.
-/

namespace UsageGraph
open Text
set_option autoImplicit false

inductive GlobToken where
  | literal (byte : UInt8)
  /-- One byte that is no slash. -/
  | any
  /-- Bytes that are no slashes. -/
  | star
  /-- Two stars in front: any directories, or none. -/
  | anyAbove
  /-- Two stars between slashes. -/
  | anyBetween
  /-- Two stars at the end: anything below. -/
  | anyBelow
  /-- A byte inside one of the ranges, or outside of all of them. -/
  | oneOf (negated : Bool) (ranges : List (UInt8 × UInt8))
  | choice (options : List (List GlobToken))
  deriving Repr

abbrev Glob := List GlobToken

namespace Glob

/-! ## Parsing -/

def literals (c : Char) : List GlobToken := (encode (String.singleton c)).map .literal

/-- The pieces before an open brace, and the options inside it that are complete. The tokens come
last first. -/
structure Frame where
  before : List GlobToken
  options : List (List GlobToken)

/-- A range of characters as ranges of bytes. -/
def byteRanges (r : Char × Char) : List (UInt8 × UInt8) :=
  let lo := encode (String.singleton r.1)
  if r.1 = r.2 then lo.map fun b => (b, b)
  else
    let hi := encode (String.singleton r.2)
    lo.dropLast.map (fun b => (b, b)) ++ [(lo.getLast?.getD 0, hi.head?.getD 0)] ++
      hi.tail.map fun b => (b, b)

/-- What became of a class in square brackets. -/
inductive ClassEnd where
  | closed (ranges : List (Char × Char)) (rest : List Char)
  | unclosed
  /-- A range ends before it starts. -/
  | backwards

/-- The ranges of a class, the last one first. A closing bracket or a hyphen in front stands for
itself, and so does a hyphen at the end. -/
def classRanges (ranges : List (Char × Char)) (first inRange : Bool) : List Char → ClassEnd
  | [] => .unclosed
  | c :: s =>
    if c = ']' ∧ !first then
      .closed (if inRange then ('-', '-') :: ranges else ranges) s
    else if c = '-' ∧ !first ∧ !inRange then classRanges ranges false true s
    else
      match inRange && c != ']', ranges with
      | true, (a, _) :: more =>
        if c < a then .backwards else classRanges ((a, c) :: more) false false s
      | _, _ => classRanges ((c, c) :: ranges) false (inRange && c == ']') s

def isNegation (c : Char) : Bool := c == '!' || c == '^'

/-- A class after its opening bracket. -/
def readClass : List Char → Bool × ClassEnd
  | c :: s => if isNegation c then (true, classRanges [] true false s)
    else (false, classRanges [] true false (c :: s))
  | [] => (false, .unclosed)

/-- The tokens of two stars with tokens before them: the slash in front becomes part of the
wildcard, and so does the one behind. -/
def wildcardAfter (suffix : Bool) : List GlobToken → List GlobToken
  | .anyAbove :: ts => .anyAbove :: ts
  | .anyBelow :: ts => .anyBelow :: ts
  | _ :: ts => (if suffix then .anyBelow else .anyBetween) :: ts
  | [] => []

/-- Parses the rest of a pattern. `last` is the character before it, `current` the tokens so far of
the innermost option, last first, and `literalBracket` says that opening brackets stand for
themselves, since one of them is never closed. -/
def parseFrom : Nat → Option Char → Bool → List Frame → List GlobToken → List Char → Option Glob
  | 0, _, _, _, _, _ => none
  | _ + 1, _, _, [], current, [] => some current.reverse
  | _ + 1, _, _, _ :: _, _, [] => none
  | fuel + 1, last, literalBracket, frames, current, c :: s =>
    match c with
    | '?' => parseFrom fuel (some c) literalBracket frames (.any :: current) s
    | '*' =>
      match s with
      | '*' :: rest =>
        let stars := parseFrom fuel (some '*') literalBracket frames (.star :: .star :: current) rest
        if current.isEmpty then
          match rest with
          | [] => parseFrom fuel none literalBracket frames (.anyAbove :: current) []
          | '/' :: rest => parseFrom fuel (some '/') literalBracket frames (.anyAbove :: current) rest
          | _ => stars
        else if last != some '/' then stars
        else
          match rest with
          | [] => parseFrom fuel none literalBracket frames (wildcardAfter true current) []
          | '/' :: rest =>
            parseFrom fuel (some '/') literalBracket frames (wildcardAfter false current) rest
          | d :: _ =>
            if (d == ',' || d == '}') && !frames.isEmpty then
              parseFrom fuel (some '*') literalBracket frames (wildcardAfter true current) rest
            else stars
      | _ => parseFrom fuel (some c) literalBracket frames (.star :: current) s
    | '[' =>
      let asLiteral := parseFrom fuel (some c) true frames ((literals c).reverse ++ current) s
      if literalBracket then asLiteral
      else
        match readClass s with
        | (negated, .closed ranges rest) =>
          let token := .oneOf negated (ranges.reverse.flatMap byteRanges)
          parseFrom fuel (some ']') literalBracket frames (token :: current) rest
        | (_, .unclosed) => asLiteral
        | (_, .backwards) => none
    | '{' => parseFrom fuel (some c) literalBracket (⟨current, []⟩ :: frames) [] s
    | '}' =>
      match frames with
      | [] => none
      | f :: frames =>
        let options := (current.reverse :: f.options).reverse
        parseFrom fuel (some c) literalBracket frames (.choice options :: f.before) s
    | ',' =>
      match frames with
      | [] => parseFrom fuel (some c) literalBracket [] ((literals c).reverse ++ current) s
      | f :: frames =>
        parseFrom fuel (some c) literalBracket
          ({ f with options := current.reverse :: f.options } :: frames) [] s
    | '\\' =>
      match s with
      | [] => none
      | d :: rest =>
        parseFrom fuel (some d) literalBracket frames ((literals d).reverse ++ current) rest
    | _ => parseFrom fuel (some c) literalBracket frames ((literals c).reverse ++ current) s

def parse? (s : String) : Option Glob :=
  parseFrom (s.toList.length + 1) none false [] [] s.toList

/-! ## Matching -/

def slash : UInt8 := 47

section
variable (next : Bytes → Bool)

/-- `next` succeeds after some bytes that are no slashes. -/
def afterStar : Bytes → Bool
  | [] => next []
  | b :: s => next (b :: s) || (b != slash && afterStar s)

/-- `next` succeeds after some slash. -/
def afterSlash : Bytes → Bool
  | [] => false
  | b :: s => (b == slash && next s) || afterSlash s

/-- `next` succeeds after some bytes. -/
def afterAny : Bytes → Bool
  | [] => next []
  | b :: s => next (b :: s) || afterAny s

/-- `next` succeeds after one byte that satisfies `p`. -/
def afterByte (p : UInt8 → Bool) : Bytes → Bool
  | [] => false
  | b :: s => p b && next s

end

def inRanges (ranges : List (UInt8 × UInt8)) (b : UInt8) : Bool :=
  ranges.any fun r => r.1 ≤ b && b ≤ r.2

mutual

/-- The token matches a beginning of the bytes, and `next` succeeds on the rest. -/
def matchToken : GlobToken → (Bytes → Bool) → Bytes → Bool
  | .literal b => fun next => afterByte next (· == b)
  | .any => fun next => afterByte next (· != slash)
  | .star => afterStar
  | .anyAbove => fun next s => next s || afterSlash next s
  | .anyBetween => fun next => afterByte (fun s => next s || afterSlash next s) (· == slash)
  | .anyBelow => fun next => afterByte (afterAny next) (· == slash)
  | .oneOf negated ranges => fun next => afterByte next (fun b => inRanges ranges b != negated)
  | .choice options => fun next s =>
    (options.all List.isEmpty && next s) || matchSome options next s

def matchAll : List GlobToken → (Bytes → Bool) → Bytes → Bool
  | [] => fun next => next
  | t :: ts => fun next => matchToken t (matchAll ts next)

/-- One of the options matches. An option without tokens is no option. -/
def matchSome : List (List GlobToken) → (Bytes → Bool) → Bytes → Bool
  | [] => fun _ _ => false
  | ts :: rest => fun next s => (!ts.isEmpty && matchAll ts next s) || matchSome rest next s

end

/-- Two stars alone match everything. -/
def isUniversal : Glob → Bool
  | [.anyAbove] => true
  | _ => false

def matchesPath (g : Glob) (path : String) : Bool :=
  g.isUniversal || matchAll g List.isEmpty (encode path)

end Glob
end UsageGraph
