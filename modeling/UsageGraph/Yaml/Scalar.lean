import UsageGraph.Document.Reading
import UsageGraph.Yaml.Cursor

/-! # Scalars of a YAML text

* `Style`: how a scalar is written.
* `Fold`: the blanks and breaks between two pieces of a scalar, and what they stand for.
* `readPlain`, `readQuotedScalar`, `readBlockScalar`: the value of a scalar, and the place after it.

A loop over the text takes the length of the text as a bound on its steps.
-/

namespace UsageGraph.Yaml
open Text
set_option autoImplicit false

inductive Style where
  | plain
  | singleQuoted
  | doubleQuoted
  | literal
  | folded
  deriving DecidableEq, Repr

/-! ## Folding -/

structure Fold where
  /-- A line break has been seen. -/
  broken : Bool
  /-- Blanks on the first line. -/
  blanks : List Char
  first : List Char
  /-- The breaks after the first one. -/
  further : List Char

namespace Fold

def none : Fold := ⟨false, [], [], []⟩

/-- A single break becomes a space; of several, the first is dropped. -/
def text (f : Fold) : List Char :=
  if f.broken then
    if f.first = ['\n'] then (if f.further = [] then [' '] else f.further)
    else f.first ++ f.further
  else f.blanks

/-- Reads blanks and breaks. On a further line, a tab before the column `limit` is an error. -/
def read (limit : Int) : Nat → Fold → Cursor → Option (Fold × Cursor)
  | 0, _, _ => Option.none
  | fuel + 1, f, c =>
    match c.peek with
    | Option.none => some (f, c)
    | some x =>
      if isGap x then
        if f.broken then
          if x == '\t' && decide ((c.column : Int) < limit) then Option.none
          else read limit fuel f c.skip
        else read limit fuel { f with blanks := f.blanks ++ [x] } c.skip
      else if isBreak x then
        let f := if f.broken then { f with further := f.further ++ c.breakText }
          else { f with broken := true, blanks := [], first := c.breakText }
        read limit fuel f c.skipBreak
      else some (f, c)

end Fold

/-! ## Plain scalars -/

def isFlowMark (c : Char) : Bool := c == ',' || c == '[' || c == ']' || c == '{' || c == '}'

/-- In a list or map in brackets, a colon must not stand right before one of these. -/
def isFlowClash (c : Cursor) : Bool :=
  c.at? ':' && match c.peekAt 1 with
    | some x => isFlowMark x || x == '?'
    | none => false

/-- A piece without blanks, and the place after it. -/
def plainPiece (inFlow : Bool) : Nat → List Char → Cursor → Option (List Char × Cursor)
  | 0, _, _ => none
  | fuel + 1, acc, c =>
    match c.peek with
    | none => some (acc.reverse, c)
    | some x =>
      if isGap x || isBreak x then some (acc.reverse, c)
      else if inFlow && isFlowClash c then none
      else if (x == ':' && c.endsWord 1) || (inFlow && isFlowMark x) then some (acc.reverse, c)
      else plainPiece inFlow fuel (x :: acc) c.skip

/-- The pieces of a plain scalar. Outside brackets, the scalar ends where a line is indented by less
than `indent`. The flag tells whether the place after it is on a new line. -/
def readPlain (inFlow : Bool) (indent : Int) :
    Nat → List Char → Fold → Cursor → Option (List Char × Bool × Cursor)
  | 0, _, _, _ => none
  | fuel + 1, acc, fold, c =>
    if c.atDocumentMark || c.at? '#' then some (acc, fold.broken, c)
    else do
      let (piece, c) ← plainPiece inFlow (c.rest.length + 1) [] c
      let (acc, fold) := if piece = [] then (acc, fold) else (acc ++ fold.text ++ piece, Fold.none)
      if c.peek.any fun x => isGap x || isBreak x then
        let (fold, c) ← Fold.read indent (c.rest.length + 1) fold c
        if !inFlow && decide ((c.column : Int) < indent) then return (acc, fold.broken, c)
        else readPlain inFlow indent fuel acc fold c
      else return (acc, fold.broken, c)

/-! ## Quoted scalars -/

/-- The character of an escape that has no digits. -/
def simpleEscape? : Char → Option Char
  | '0' => some '\x00'
  | 'a' => some '\x07'
  | 'b' => some '\x08'
  | 't' => some '\t'
  | '\t' => some '\t'
  | 'n' => some '\n'
  | 'v' => some '\x0b'
  | 'f' => some '\x0c'
  | 'r' => some '\r'
  | 'e' => some '\x1b'
  | ' ' => some ' '
  | '"' => some '"'
  | '/' => some '/'
  | '\\' => some '\\'
  | 'N' => some '\x85'
  | '_' => some '\xa0'
  | 'L' => some '\u2028'
  | 'P' => some '\u2029'
  | _ => none

/-- How many digits follow. -/
def escapeWidth? : Char → Option Nat
  | 'x' => some 2
  | 'u' => some 4
  | 'U' => some 8
  | _ => none

def hexNumber? (s : List Char) : Option Nat :=
  (s.mapM hexValue?).map fun ds => ds.foldl (fun n d => 16 * n + d) 0

/-- An escape with digits stands for a character, not for half of a pair. -/
def hexEscape? (width : Nat) (s : List Char) : Option Char :=
  if s.length < width then none
  else (hexNumber? (s.take width)).bind fun n =>
    if (0xD800 ≤ n ∧ n < 0xE000) ∨ 0x10FFFF < n then none else some (Char.ofNat n)

/-- The character of an escape whose backslash is passed, and the place after it. -/
def readEscape (c : Cursor) : Option (Char × Cursor) := do
  let x ← c.peek
  match escapeWidth? x with
  | some width =>
    let y ← hexEscape? width (c.rest.drop 1)
    return (y, c.skipMany (width + 1))
  | none =>
    let y ← simpleEscape? x
    return (y, c.skip)

/-- A piece without blanks. A backslash at the end of a line joins the lines without a space, which
the flag tells. -/
def quotedPiece (single : Bool) : Nat → List Char → Cursor → Option (List Char × Bool × Cursor)
  | 0, _, _ => none
  | fuel + 1, acc, c =>
    match c.peek with
    | none => some (acc.reverse, false, c)
    | some x =>
      if isGap x || isBreak x then some (acc.reverse, false, c)
      else if single then
        if x == '\'' then
          if c.peekAt 1 == some '\'' then quotedPiece single fuel ('\'' :: acc) (c.skipMany 2)
          else some (acc.reverse, false, c)
        else quotedPiece single fuel (x :: acc) c.skip
      else if x == '"' then some (acc.reverse, false, c)
      else if x == '\\' then
        if (c.peekAt 1).any isBreak then some (acc.reverse, true, c.skip.skipBreak)
        else
          match readEscape c.skip with
          | none => none
          | some (y, c) => quotedPiece single fuel (y :: acc) c
      else quotedPiece single fuel (x :: acc) c.skip

def readQuotedScalar (single : Bool) : Nat → List Char → Cursor → Option (List Char × Cursor)
  | 0, _, _ => none
  | fuel + 1, acc, c =>
    if c.atDocumentMark || c.rest.isEmpty then none
    else do
      let (piece, joined, c) ← quotedPiece single (c.rest.length + 1) [] c
      if c.at? (if single then '\'' else '"') then return (acc ++ piece, c.skip)
      else
        let (fold, c) ← Fold.read 0 (c.rest.length + 1) { Fold.none with broken := joined } c
        readQuotedScalar single fuel (acc ++ piece ++ fold.text) c

/-! ## Block scalars -/

/-- What becomes of the breaks at the end. -/
inductive Chomping where
  | strip
  | clip
  | keep
  deriving DecidableEq, Repr

def chomping? : Option Char → Option Chomping
  | some '+' => some .keep
  | some '-' => some .strip
  | _ => none

/-- The digit that gives the indentation; zero is not allowed. -/
def increment? (c : Cursor) : Option Nat :=
  match c.peek with
  | some x => if isAsciiDigit x then some (x.toNat - 48) else none
  | none => none

/-- The two indicators of a header, in either order. -/
def readHeader (c : Cursor) : Option (Chomping × Nat × Cursor) :=
  match chomping? c.peek with
  | some chomping =>
    let c := c.skip
    match increment? c with
    | some 0 => none
    | some n => some (chomping, n, c.skip)
    | none => some (chomping, 0, c)
  | none =>
    match increment? c with
    | some 0 => none
    | some n =>
      let c := c.skip
      match chomping? c.peek with
      | some chomping => some (chomping, n, c.skip)
      | none => some (.clip, n, c)
    | none => some (.clip, 0, c)

/-- Empty lines, and the spaces before the next line that is not empty. An `indent` of zero is not
yet known. -/
def readBreaks (indent : Nat) : Nat → Nat → List Char → Cursor → Option (Nat × List Char × Cursor)
  | 0, _, _, _ => none
  | fuel + 1, widest, acc, c =>
    let spaces := c.rest.takeWhile (· == ' ')
    let c := c.skipMany (if indent = 0 then spaces.length
      else min spaces.length (indent - c.column))
    let widest := max widest c.column
    if (indent = 0 ∨ c.column < indent) ∧ c.at? '\t' then none
    else if c.peek.any isBreak then readBreaks indent fuel widest (acc ++ c.breakText) c.skipBreak
    else some (widest, acc, c)

/-- The lines of a block scalar: the value so far, the break after the last line and the breaks after
that one. The flag tells that the last line started with a blank. -/
def readBlockLines (folds : Bool) (indent : Nat) :
    Nat → List Char → List Char → List Char → Bool → Cursor →
      Option (List Char × List Char × List Char × Cursor)
  | 0, _, _, _, _, _ => none
  | fuel + 1, acc, last, empty, blankBefore, c =>
    if c.column = indent ∧ c.rest ≠ [] then
      let blankHere := c.peek.any isGap
      let joint :=
        if folds && last == ['\n'] && !blankBefore && !blankHere then
          (if empty = [] then [' '] else empty)
        else last ++ empty
      let (line, c) := c.takeWhile fun x => !isBreak x
      let (last, c) := if c.rest.isEmpty then ([], c) else (c.breakText, c.skipBreak)
      match readBreaks indent (c.rest.length + 1) 0 [] c with
      | none => none
      | some (_, empty, c) =>
        readBlockLines folds indent fuel (acc ++ joint ++ line) last empty blankHere c
    else some (acc, last, empty, c)

/-- A block scalar after its indicator, in a block that is indented by `parent`. -/
def readBlockScalar (folds : Bool) (parent : Int) (c : Cursor) : Option (List Char × Cursor) := do
  let (chomping, increment, c) ← readHeader c
  let c := c.skipWhile isGap
  let c := if c.at? '#' then c.skipWhile fun x => !isBreak x else c
  if !c.endsLine then none
  else
    let c := if c.rest.isEmpty then c else c.skipBreak
    let given := if increment = 0 then 0 else (max parent 0).toNat + increment
    let (widest, empty, c) ← readBreaks given (c.rest.length + 1) 0 [] c
    let indent := if given = 0 then max (max widest (parent + 1).toNat) 1 else given
    let (text, last, empty, c) ←
      readBlockLines folds indent (c.rest.length + 1) [] [] empty false c
    return (text ++ (if chomping = .strip then [] else last) ++
      (if chomping = .keep then empty else []), c)

end UsageGraph.Yaml
