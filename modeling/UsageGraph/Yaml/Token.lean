import UsageGraph.Text.Utf8
import UsageGraph.Yaml.Scalar

/-! # Tokens of a YAML text

* `Token`: brackets, indicators, properties and scalars. Indentation is made explicit by tokens
  that start and end a block.
* `Lexer`: the place in the text, the open blocks and brackets, and the tokens so far.
* `Lexer.next`: reads one more token; `none` if there is none here.
* `tokens?`: the tokens of a whole text.

A mapping key is seen to be one only at the colon after it. Until then a possible key is remembered
with the number of tokens before it, and the tokens that announce it are put in later.
-/

namespace UsageGraph.Yaml
open Text
set_option autoImplicit false

inductive Token where
  | version (major minor : Nat)
  | tagHandle (handle start : String)
  | documentStart
  | documentEnd
  | blockSequenceStart
  | blockMappingStart
  | blockEnd
  | flowSequenceStart
  | flowSequenceEnd
  | flowMappingStart
  | flowMappingEnd
  | blockEntry
  | flowEntry
  | key
  | value
  | alias (name : String)
  | anchor (name : String)
  | tag (handle suffix : String)
  | scalar (style : Style) (text : String)
  deriving DecidableEq, Repr

/-- A place where a key may have started. -/
structure PossibleKey where
  /-- Nothing else than a key can stand here. -/
  required : Bool
  /-- How many tokens come before. -/
  before : Nat
  index : Nat
  line : Nat
  column : Nat

structure Lexer where
  cursor : Cursor
  /-- How many brackets are open. -/
  flow : Nat
  /-- The column of the innermost block, `-1` outside of every block. -/
  indent : Int
  outer : List Int
  keyAllowed : Bool
  possible : Option PossibleKey
  /-- The possible keys outside of the innermost brackets. -/
  outerPossible : List (Option PossibleKey)
  /-- The last token comes first. -/
  reversed : List Token

namespace Lexer

def ofText (s : List Char) : Lexer := ⟨.ofText s, 0, -1, [], true, none, [], []⟩

def push (l : Lexer) (t : Token) : Lexer := { l with reversed := t :: l.reversed }

/-- Puts tokens behind the first `before` ones. -/
def insert (l : Lexer) (before : Nat) (ts : List Token) : Lexer :=
  let later := l.reversed.length - before
  { l with reversed := l.reversed.take later ++ ts.reverse ++ l.reversed.drop later }

def moveTo (l : Lexer) (c : Cursor) : Lexer := { l with cursor := c }

def allowKey (l : Lexer) (b : Bool) : Lexer := { l with keyAllowed := b }

/-! ## Possible keys -/

/-- The greatest length of a key, up to its colon. -/
def keyLimit : Nat := 1024

def isStale (c : Cursor) (k : PossibleKey) : Bool :=
  decide (k.line < c.line) || decide (k.index + keyLimit < c.index)

/-- A key on an earlier line or too far back is none; an error if it had to be one. -/
def dropStale (c : Cursor) : Option PossibleKey → Option (Option PossibleKey)
  | none => some none
  | some k => if isStale c k then (if k.required then none else some none) else some (some k)

def dropAllStale (l : Lexer) : Option Lexer := do
  let possible ← dropStale l.cursor l.possible
  let outerPossible ← l.outerPossible.mapM (dropStale l.cursor)
  return { l with possible := possible, outerPossible := outerPossible }

def forgetKey (l : Lexer) : Option Lexer :=
  if l.possible.any PossibleKey.required then none else some { l with possible := none }

/-- A key may start here. -/
def noteKey (l : Lexer) : Option Lexer :=
  if l.keyAllowed then do
    let l ← l.forgetKey
    let c := l.cursor
    return { l with possible := some {
      required := l.flow == 0 && decide (l.indent = c.column)
      before := l.reversed.length
      index := c.index
      line := c.line
      column := c.column } }
  else some l

/-! ## Blocks -/

/-- A block starts at a column to the right of the current one; `starts` stands behind the first
`before` tokens. -/
def openBlock (l : Lexer) (column before : Nat) (starts : Token) : Lexer :=
  if l.flow = 0 ∧ l.indent < column then
    { l.insert before [starts] with indent := column, outer := l.indent :: l.outer }
  else l

def openBlockHere (l : Lexer) (starts : Token) : Lexer :=
  l.openBlock l.cursor.column l.reversed.length starts

/-- Ends the blocks to the right of a column. -/
def closeBlocks (column : Int) (indent : Int) : List Int → List Token → Int × List Int × List Token
  | [], ts => (indent, [], ts)
  | i :: is, ts =>
    if column < indent then closeBlocks column i is (.blockEnd :: ts) else (indent, i :: is, ts)

def closeTo (l : Lexer) (column : Int) : Lexer :=
  if l.flow = 0 then
    let (indent, outer, ts) := closeBlocks column l.indent l.outer l.reversed
    { l with indent := indent, outer := outer, reversed := ts }
  else l

/-! ## Indicators -/

def indicator (l : Lexer) (width : Nat) (t : Token) : Lexer :=
  (l.moveTo (l.cursor.skipMany width)).push t

def documentMark (l : Lexer) (t : Token) : Option Lexer := do
  let l ← (l.closeTo (-1)).forgetKey
  return (l.allowKey false).indicator 3 t

def openBracket (l : Lexer) (t : Token) : Option Lexer := do
  let l ← l.noteKey
  let l := { l with
    flow := l.flow + 1
    outerPossible := l.possible :: l.outerPossible
    possible := none }
  return (l.allowKey true).indicator 1 t

def closeBracket (l : Lexer) (t : Token) : Option Lexer := do
  let l ← l.forgetKey
  let l := match l.outerPossible with
    | k :: ks => { l with flow := l.flow - 1, possible := k, outerPossible := ks }
    | [] => l
  return (l.allowKey false).indicator 1 t

def flowComma (l : Lexer) : Option Lexer := do
  let l ← l.forgetKey
  return (l.allowKey true).indicator 1 .flowEntry

def blockDash (l : Lexer) : Option Lexer :=
  if l.flow = 0 ∧ !l.keyAllowed then none
  else do
    let l ← (l.openBlockHere .blockSequenceStart).forgetKey
    return (l.allowKey true).indicator 1 .blockEntry

def questionMark (l : Lexer) : Option Lexer :=
  if l.flow = 0 ∧ !l.keyAllowed then none
  else do
    let l ← (l.openBlockHere .blockMappingStart).forgetKey
    return (l.allowKey (l.flow == 0)).indicator 1 .key

/-- A colon makes a key of the possible key before it. -/
def colon (l : Lexer) : Option Lexer :=
  match l.possible with
  | some k =>
    let l := (l.insert k.before [.key]).openBlock k.column k.before .blockMappingStart
    some (({ l with possible := none }.allowKey false).indicator 1 .value)
  | none =>
    if l.flow = 0 ∧ !l.keyAllowed then none
    else
      let l := l.openBlockHere .blockMappingStart
      some ((l.allowKey (l.flow == 0)).indicator 1 .value)

/-! ## Properties -/

/-- What may follow the name of an anchor. -/
def endsName (c : Cursor) : Bool :=
  c.endsWord 0 || c.peek.any fun x => x ∈ ['?', ':', ',', ']', '}', '%', '@', '`']

def named (l : Lexer) (make : String → Token) : Option Lexer := do
  let l ← l.noteKey
  let (name, c) := l.cursor.skip.takeWhile isNameChar
  if name = [] ∨ !endsName c then none
  else return ((l.allowKey false).moveTo c).push (make (String.ofList name))

def tagMarks : List Char :=
  [';', '/', '?', ':', '@', '&', '=', '+', '$', '.', '!', '~', '*', '\'', '(', ')']

/-- The bytes of a percent escape and of those right after it. -/
def escapedBytes : List Char → Bytes
  | '%' :: a :: b :: rest =>
    match hexNumber? [a, b] with
    | some n => n.toUInt8 :: escapedBytes rest
    | none => []
  | _ => []

/-- One character written as percent escapes, and how many bytes it has. -/
def percentChar? (s : List Char) : Option (Char × Nat) :=
  match escapedBytes s with
  | [] => none
  | b :: bs => (scalarAt b bs).1.map fun x => (x, (scalarAt b bs).2 + 1)

/-- The characters of a tag; brackets and commas only in a verbatim one. -/
def readTagText (verbatim : Bool) : Nat → List Char → Cursor → Option (List Char × Cursor)
  | 0, _, _ => none
  | fuel + 1, acc, c =>
    match c.peek with
    | none => some (acc.reverse, c)
    | some x =>
      if x == '%' then
        match percentChar? c.rest with
        | none => none
        | some (y, bytes) => readTagText verbatim fuel (y :: acc) (c.skipMany (3 * bytes))
      else if isNameChar x || x ∈ tagMarks || (verbatim && x ∈ [',', '[', ']']) then
        readTagText verbatim fuel (x :: acc) c.skip
      else some (acc.reverse, c)

def tagText (verbatim : Bool) (c : Cursor) : Option (List Char × Cursor) :=
  readTagText verbatim (c.rest.length + 1) [] c

/-- An exclamation mark, a name and perhaps a second exclamation mark. -/
def readHandle (c : Cursor) : Option (List Char × Cursor) :=
  if c.at? '!' then
    let (name, c) := c.skip.takeWhile isNameChar
    if c.at? '!' then some ('!' :: name ++ ['!'], c.skip) else some ('!' :: name, c)
  else none

def isFullHandle (handle : List Char) : Bool :=
  decide (2 ≤ handle.length) && handle.getLast? == some '!'

/-- The handle and the suffix of a tag, and the place after it. -/
def readTag (c : Cursor) : Option (List Char × List Char × Cursor) :=
  if c.peekAt 1 == some '<' then do
    let (suffix, c) ← tagText true (c.skipMany 2)
    if suffix = [] ∨ !c.at? '>' then none else return ([], suffix, c.skip)
  else do
    let (handle, c) ← readHandle c
    let (suffix, c) ← tagText false c
    if isFullHandle handle then
      if suffix = [] then none else return (handle, suffix, c)
    else
      let suffix := handle.drop 1 ++ suffix
      if suffix = [] then return ([], ['!'], c) else return (['!'], suffix, c)

def tagged (l : Lexer) : Option Lexer := do
  let l ← l.noteKey
  let (handle, suffix, c) ← readTag l.cursor
  if c.endsWord 0 || (l.flow != 0 && c.at? ',') then
    return ((l.allowKey false).moveTo c).push (.tag (String.ofList handle) (String.ofList suffix))
  else none

/-! ## Directives -/

def readNumber (c : Cursor) : Option (Nat × Cursor) :=
  let (digits, c) := c.takeWhile isAsciiDigit
  if digits = [] ∨ 9 < digits.length then none else some (Numeral.digitsValue digits, c)

def readVersion (c : Cursor) : Option (Token × Cursor) := do
  let (major, c) ← readNumber (c.skipWhile isGap)
  if !c.at? '.' then none
  else
    let (minor, c) ← readNumber c.skip
    return (.version major minor, c)

def readTagHandle (c : Cursor) : Option (Token × Cursor) := do
  let (handle, c) ← readHandle (c.skipWhile isGap)
  if (handle ≠ ['!'] ∧ !isFullHandle handle) ∨ !(c.peek.any isGap) then none
  else
    let (start, c) ← tagText true (c.skipWhile isGap)
    if start = [] ∨ !c.endsWord 0 then none
    else return (.tagHandle (String.ofList handle) (String.ofList start), c)

def directive (l : Lexer) : Option Lexer := do
  let l ← (l.closeTo (-1)).forgetKey
  let (name, c) := l.cursor.skip.takeWhile isNameChar
  if !c.endsWord 0 then none
  else
    let (t, c) ← if name = "YAML".toList then readVersion c
      else if name = "TAG".toList then readTagHandle c
      else none
    let c := c.skipWhile isGap
    let c := if c.at? '#' then c.skipWhile fun x => !isBreak x else c
    if !c.endsLine then none
    else return ((l.allowKey false).moveTo (if c.rest.isEmpty then c else c.skipBreak)).push t

/-! ## Scalars -/

def plain (l : Lexer) : Option Lexer := do
  let l ← l.noteKey
  let c := l.cursor
  let (text, onNewLine, c) ← readPlain (l.flow != 0) (l.indent + 1) (c.rest.length + 1) [] .none c
  return ((l.allowKey onNewLine).moveTo c).push (.scalar .plain (String.ofList text))

def quotedScalar (l : Lexer) (single : Bool) : Option Lexer := do
  let l ← l.noteKey
  let c := l.cursor.skip
  let (text, c) ← readQuotedScalar single (c.rest.length + 1) [] c
  return ((l.allowKey false).moveTo c).push
    (.scalar (if single then .singleQuoted else .doubleQuoted) (String.ofList text))

def blockScalar (l : Lexer) (folds : Bool) : Option Lexer := do
  let l ← l.forgetKey
  let (text, c) ← readBlockScalar folds l.indent l.cursor.skip
  return ((l.allowKey true).moveTo c).push
    (.scalar (if folds then .folded else .literal) (String.ofList text))

/-! ## One token -/

/-- Passes blanks, comments and line breaks. A tab is a blank only where no key can start. A byte order
mark at the start of a line is passed as well, and counts as a column. -/
def skipToToken : Nat → Lexer → Lexer
  | 0, l => l
  | fuel + 1, l =>
    let c := if l.cursor.column = 0 ∧ l.cursor.at? byteOrderMark then l.cursor.skip else l.cursor
    let tabs := l.flow != 0 || !l.keyAllowed
    let c := c.skipWhile fun x => x == ' ' || (tabs && x == '\t')
    let c := if c.at? '#' then c.skipWhile fun x => !isBreak x else c
    if c.peek.any isBreak then
      skipToToken fuel ((l.moveTo c.skipBreak).allowKey (l.flow == 0 || l.keyAllowed))
    else l.moveTo c

/-- Characters that start something else than a plain scalar. -/
def indicators : List Char :=
  ['-', '?', ':', ',', '[', ']', '{', '}', '#', '&', '*', '!', '|', '>', '\'', '"', '%', '@', '`']

def startsPlain (l : Lexer) (x : Char) : Bool :=
  let c := l.cursor
  !(isGap x || isBreak x || x ∈ indicators) ||
    (x == '-' && !(c.peekAt 1).any isGap) ||
    (l.flow == 0 && (x == '?' || x == ':') && !c.endsWord 1)

/-- Reads the token that starts with `x` here. -/
def tokenAt (l : Lexer) (x : Char) : Option Lexer :=
  let c := l.cursor
  let bare := l.flow == 0
  if c.column == 0 && x == '%' then l.directive
  else if c.startsMark '-' then l.documentMark .documentStart
  else if c.startsMark '.' then l.documentMark .documentEnd
  else if x == '[' then l.openBracket .flowSequenceStart
  else if x == '{' then l.openBracket .flowMappingStart
  else if x == ']' then l.closeBracket .flowSequenceEnd
  else if x == '}' then l.closeBracket .flowMappingEnd
  else if x == ',' then l.flowComma
  else if x == '-' && c.endsWord 1 then l.blockDash
  else if x == '?' && (!bare || c.endsWord 1) then l.questionMark
  else if x == ':' && (!bare || c.endsWord 1) then l.colon
  else if x == '*' then l.named .alias
  else if x == '&' then l.named .anchor
  else if x == '!' then l.tagged
  else if x == '|' && bare then l.blockScalar false
  else if x == '>' && bare then l.blockScalar true
  else if x == '\'' then l.quotedScalar true
  else if x == '"' then l.quotedScalar false
  else if l.startsPlain x then l.plain
  else none

/-- The text ends here. -/
def finish (l : Lexer) : Option Lexer := (l.closeTo (-1)).forgetKey

def run : Nat → Lexer → Option Lexer
  | 0, _ => none
  | fuel + 1, l => do
    let l ← (skipToToken (l.cursor.rest.length + 1) l).dropAllStale
    let l := l.closeTo l.cursor.column
    match l.cursor.peek with
    | none => l.finish
    | some x =>
      let l ← l.tokenAt x
      run fuel l

end Lexer

def tokens? (text : String) : Option (List Token) :=
  let s := text.toList
  if s.all isAllowed then
    (Lexer.run (s.length + 1) (.ofText s)).map fun l => l.reversed.reverse
  else none

end UsageGraph.Yaml
