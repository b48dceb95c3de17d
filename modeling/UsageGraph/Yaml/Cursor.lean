import UsageGraph.Text.WordChar

/-! # A place in a YAML text

* `Cursor`: the text that is still to be read, with the line and the column it starts at.
* `Cursor.skip`, `Cursor.skipBreak`: over one character, over one line break.
* `isBreak`, `isGap`, `Cursor.endsWord`: line breaks, spaces and tabs, and the end of a word.
* `isAllowed`: the characters that a text may hold.
-/

namespace UsageGraph.Yaml
open Text
set_option autoImplicit false

/-! ## Characters -/

def isBreak (c : Char) : Bool :=
  c == '\n' || c == '\r' || c == '\x85' || c == '\u2028' || c == '\u2029'

/-- Spaces and tabs. -/
def isGap (c : Char) : Bool := c == ' ' || c == '\t'

/-- Letters, digits, the underscore and the hyphen. -/
def isNameChar (c : Char) : Bool := isAsciiWord c || c == '-'

/-- Control characters other than tab, line breaks and next line may not occur. -/
def isAllowed (c : Char) : Bool :=
  let n := c.toNat
  n == 0x09 || n == 0x0A || n == 0x0D || (0x20 ≤ n && n ≤ 0x7E) || n == 0x85 ||
    (0xA0 ≤ n && n ≤ 0xFFFD) || 0x10000 ≤ n

def byteOrderMark : Char := '\ufeff'

/-! ## Cursors -/

structure Cursor where
  rest : List Char
  /-- The number of characters before. -/
  index : Nat
  line : Nat
  column : Nat

namespace Cursor

def ofText (s : List Char) : Cursor := ⟨s, 0, 0, 0⟩

def peek (c : Cursor) : Option Char := c.rest.head?

def peekAt (c : Cursor) (n : Nat) : Option Char := c.rest[n]?

def at? (c : Cursor) (x : Char) : Bool := c.peek == some x

def skip (c : Cursor) : Cursor := ⟨c.rest.drop 1, c.index + 1, c.line, c.column + 1⟩

def skipMany (n : Nat) (c : Cursor) : Cursor := ⟨c.rest.drop n, c.index + n, c.line, c.column + n⟩

/-- The characters in front that satisfy a condition, on one line, and the place after them. -/
def takeWhile (p : Char → Bool) (c : Cursor) : List Char × Cursor :=
  let front := c.rest.takeWhile p
  (front, c.skipMany front.length)

def skipWhile (p : Char → Bool) (c : Cursor) : Cursor := (c.takeWhile p).2

/-- A carriage return and a line feed are one break. -/
def breakLength (c : Cursor) : Nat :=
  match c.rest with
  | '\r' :: '\n' :: _ => 2
  | _ => 1

def skipBreak (c : Cursor) : Cursor :=
  ⟨c.rest.drop c.breakLength, c.index + c.breakLength, c.line + 1, 0⟩

/-- What a break stands for in a value: a line feed, except for the two Unicode separators. -/
def breakText (c : Cursor) : List Char :=
  match c.peek with
  | some x => if x == '\u2028' || x == '\u2029' then [x] else ['\n']
  | none => []

/-- A gap, a break or the end of the text stands `n` characters ahead. -/
def endsWord (c : Cursor) (n : Nat) : Bool :=
  match c.peekAt n with
  | none => true
  | some x => isGap x || isBreak x

/-- The line ends here. -/
def endsLine (c : Cursor) : Bool :=
  match c.peek with
  | none => true
  | some x => isBreak x

def startsMark (c : Cursor) (x : Char) : Bool :=
  c.column == 0 && c.rest.take 3 == [x, x, x] && c.endsWord 3

/-- A document starts or ends here. -/
def atDocumentMark (c : Cursor) : Bool := c.startsMark '-' || c.startsMark '.'

end Cursor
end UsageGraph.Yaml
